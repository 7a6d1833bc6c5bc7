import ColumnFlow.Proofs.Column.Obtained
import ColumnFlow.Proofs.Context.Lengths

/-!
# When unfolding is refused

A column is refused if it has no paths and no lists, if it has more elements than the limit, or if
it has elements of a type that is not known (`Unfolded.ofColumn_eq_error_iff`). A context is refused
if its column is, or if there is none. What comes after the column has been unfolded never fails
(`Context.unfold_refused_iff`).
-/

namespace ColumnFlow

open Rows

/-! ## Errors -/

section

variable {α β : Type} {e : Error}

theorem orError_eq_error_iff {x : Except Error α} :
    orError x = .error (.error e) ↔ x = .error e := by
  cases x <;> simp [orError]

theorem orFault_ne_error (x : Except Fault α) : orFault x ≠ .error (.error e) := by
  cases x <;> simp [orFault]

/-- A sequence ends with an error in its first step or after it. -/
theorem bind_eq_error_iff {x : Except Failure α} {f : α → Except Failure β} :
    x >>= f = .error (.error e) ↔
      x = .error (.error e) ∨ ∃ a, x = .ok a ∧ f a = .error (.error e) := by
  cases x <;> simp [bind, Except.bind]

/-- What neither faults nor ends with an error gives a result. -/
theorem exists_ok_of_not_faults {x : Except Failure α} (hfault : ¬ Faults x)
    (herror : ∀ e, x ≠ .error (.error e)) : ∃ a, x = .ok a := by
  cases x with
  | ok a => exact ⟨a, rfl⟩
  | error failure =>
    cases failure with
    | error e => exact absurd rfl (herror e)
    | fault fault => exact absurd ⟨fault, rfl⟩ hfault

end

/-! ## Kinds of columns -/

namespace Column

variable {c : Column}

/-- Only columns of lists have this type. -/
theorem elemType_eq_list_iff :
    c.elemType = .list ↔ ∃ itemType cells, c.HasLists itemType cells := by
  constructor
  · intro h
    cases c with
    | vertex c | edge c | path c => cases h
    | value c =>
      obtain ⟨⟨t, cells⟩ | ⟨itemType, cells⟩, arena⟩ := c
      · cases t <;> cases h
      · exact ⟨itemType, cells, .value arena⟩
    | optionalValue c =>
      obtain ⟨⟨⟨t, cells⟩ | ⟨itemType, cells⟩, arena⟩, validity⟩ := c
      · cases t <;> cases h
      · exact ⟨itemType, cells, .optionalValue arena validity⟩
  · rintro ⟨itemType, cells, h⟩
    cases h <;> rfl

theorem HasLists.itemType_eq {itemType : ElemType} {cells : List ListValue}
    (h : c.HasLists itemType cells) : c.itemType = itemType := by
  cases h <;> rfl

end Column

namespace Unfolded

variable {limit : Option UInt64} {c : Column} {u : Unfolded} {e : Error}

/-! ## The limit -/

theorem checkLimit_eq_error_iff {n : Nat} :
    checkLimit limit n = .error e ↔ ∃ l, limit = some l ∧ l.toNat < n ∧ e = .of (.rowLimit l) := by
  cases limit with
  | none => simp [checkLimit]
  | some l => by_cases h : l.toNat < n <;> simp [checkLimit, h, eq_comm]

/-- More rows are refused the same way. -/
theorem checkLimit_eq_error_mono {m n : Nat} (hmn : m ≤ n) (h : checkLimit limit m = .error e) :
    checkLimit limit n = .error e := by
  obtain ⟨l, hl, hlt, he⟩ := checkLimit_eq_error_iff.1 h
  exact checkLimit_eq_error_iff.2 ⟨l, hl, Nat.lt_of_lt_of_le hlt hmn, he⟩

/-- Checking the limit after each path is checking it once for all of them. -/
theorem visitPaths_eq_checkLimit {visited : List (Nat × Vertex)} {rows : List (Option Path × Nat)}
    (h : checkLimit limit visited.length = .ok ()) :
    visitPaths limit visited rows = (do
      checkLimit limit (visited ++ pathVertices rows).length
      return visited ++ pathVertices rows) := by
  induction rows generalizing visited with
  | nil => simp [visitPaths, pathVertices, h]
  | cons entry rows ih =>
    obtain ⟨_ | path, row⟩ := entry
    · exact ih h
    · have hvertices : visited ++ pathVertices ((some path, row) :: rows)
          = visited ++ path.vertices.map (row, ·) ++ pathVertices rows := by
        simp [pathVertices]
      rw [hvertices, visitPaths]
      cases hcheck : checkLimit limit (visited ++ path.vertices.map (row, ·)).length with
      | ok => exact ih hcheck
      | error e =>
        rw [checkLimit_eq_error_mono (by simp) hcheck]
        rfl

/-! ## Columns -/

/-- Why a column can't be unfolded. More elements than the limit come before a type that is not
known. -/
inductive Refuses (limit : Option UInt64) (c : Column) : Cause → Prop where
  | notImplemented (hpath : c.kind ≠ .path) (hlist : c.elemType ≠ .list) :
      Refuses limit c (.notImplemented s!"unfold for {c.info}")
  | rowLimit {l : UInt64} (hl : limit = some l) (h : l.toNat < c.elements.length) :
      Refuses limit c (.rowLimit l)
  | itemTypeUnknown (hlist : c.elemType = .list) (hnull : c.itemType = .null)
      (hsome : c.elements ≠ []) (hlimit : WithinLimit limit c.elements.length) :
      Refuses limit c (.itemTypeUnknown c.info)

/-- Paths are refused for their number only. -/
theorem refuses_path_iff {paths : PathColumn} :
    (∃ cause, Refuses limit (.path paths) cause ∧ e = .of cause) ↔
      checkLimit limit (Column.path paths).elements.length = .error e := by
  rw [checkLimit_eq_error_iff]
  constructor
  · rintro ⟨cause, hcause, rfl⟩
    cases hcause with
    | notImplemented hpath => exact absurd rfl hpath
    | rowLimit hl hlt => exact ⟨_, hl, hlt, rfl⟩
    | itemTypeUnknown hlist => cases hlist
  · rintro ⟨l, hl, hlt, rfl⟩
    exact ⟨_, .rowLimit hl hlt, rfl⟩

/-- Lists are refused for the number of their items, and for items of a type that is not known. -/
theorem refuses_lists_iff {itemType : ElemType} {cells : List ListValue}
    (h : c.HasLists itemType cells) :
    (∃ cause, Refuses limit c cause ∧ e = .of cause) ↔
      checkLimit limit c.elements.length = .error e ∨
        (checkLimit limit c.elements.length = .ok () ∧ itemType = .null ∧ c.elements ≠ [] ∧
          e = .of (.itemTypeUnknown c.info)) := by
  have htype : c.elemType = .list := Column.elemType_eq_list_iff.2 ⟨_, _, h⟩
  rw [checkLimit_eq_error_iff, checkLimit_eq_ok_iff, ← h.itemType_eq]
  constructor
  · rintro ⟨cause, hcause, rfl⟩
    cases hcause with
    | notImplemented _ hlist => exact absurd htype hlist
    | rowLimit hl hlt => exact .inl ⟨_, hl, hlt, rfl⟩
    | itemTypeUnknown _ hnull hsome hlimit => exact .inr ⟨hlimit, hnull, hsome, rfl⟩
  · rintro (⟨l, hl, hlt, rfl⟩ | ⟨hlimit, hnull, hsome, rfl⟩)
    · exact ⟨_, .rowLimit hl hlt, rfl⟩
    · exact ⟨_, .itemTypeUnknown htype hnull hsome hlimit, rfl⟩

/-- All other columns are refused for what they are. They have no elements to exceed a limit. -/
theorem refuses_other_iff (hpath : c.kind ≠ .path)
    (hlists : ∀ itemType cells, ¬ c.HasLists itemType cells) :
    (∃ cause, Refuses limit c cause ∧ e = .of cause) ↔
      e = .of (.notImplemented s!"unfold for {c.info}") := by
  have hlist : c.elemType ≠ .list := by
    intro htype
    obtain ⟨itemType, cells, h⟩ := Column.elemType_eq_list_iff.1 htype
    exact hlists itemType cells h
  constructor
  · rintro ⟨cause, hcause, rfl⟩
    cases hcause with
    | notImplemented => rfl
    | rowLimit hl hlt =>
      obtain ⟨x, hx⟩ := List.exists_mem_of_length_pos (Nat.zero_lt_of_lt hlt)
      rcases Column.path_or_lists_of_mem_elements hx with ⟨paths, rfl⟩ | ⟨_, _, h⟩
      · exact absurd rfl hpath
      · exact absurd h (hlists _ _)
    | itemTypeUnknown htype => exact absurd htype hlist
  · rintro rfl
    exact ⟨_, .notImplemented hpath hlist, rfl⟩

theorem length_pathVertices {paths : PathColumn} (ha : paths.Aligned) :
    (pathVertices paths.contents.zipIdx).length = (Column.path paths).elements.length := by
  have hrows : (Column.path paths).rows = paths.contents.map (Option.map .path) :=
    Column.rows_eq_contents ha
  have helements : (Column.path paths).elements
      = elementsFrom 0 (fun p => p.vertices.map Value.vertex) paths.contents := by
    rw [Column.elements, hrows, elementsFrom_map]
    rfl
  rw [helements, elementsFrom_vertices, List.length_map]

/-- Paths are refused for the number of their vertices, or their vertices come out as a column. -/
theorem ofPaths_eq {paths : PathColumn} (ha : paths.Aligned) :
    ofPaths limit paths = (do
      orError (checkLimit limit (pathVertices paths.contents.zipIdx).length)
      return ofVertices (pathVertices paths.contents.zipIdx)) := by
  have hnone : checkLimit limit ([] : List (Nat × Vertex)).length = .ok () := by
    cases limit <;> simp [checkLimit]
  have hvisit : visitPaths limit [] paths.contents.zipIdx = _ := visitPaths_eq_checkLimit hnone
  rw [List.nil_append] at hvisit
  rw [ofPaths, RecordColumn.rows_eq ha]
  cases hcheck : checkLimit limit (pathVertices paths.contents.zipIdx).length with
  | error e => simp [orFault, orError, hvisit, hcheck, bind, Except.bind]
  | ok =>
    simp [orFault, orError, hvisit, hcheck, bind, Except.bind, pure, Except.pure, ofVertices,
      foldl_push_eq, Function.comp_def]

theorem ofPaths_eq_error_iff {paths : PathColumn} (ha : paths.Aligned) :
    ofPaths limit paths = .error (.error e) ↔
      checkLimit limit (Column.path paths).elements.length = .error e := by
  rw [ofPaths_eq ha, bind_eq_error_iff, orError_eq_error_iff, length_pathVertices ha]
  exact or_iff_left fun ⟨_, _, h⟩ => by cases h

theorem ofLists_eq_error_iff {itemType : ElemType} {lists : List (Nat × ListValue)}
    (hlists : listItems lists = c.elements) :
    ofLists limit c itemType lists = .error (.error e) ↔
      checkLimit limit c.elements.length = .error e ∨
        (checkLimit limit c.elements.length = .ok () ∧ itemType = .null ∧ c.elements ≠ [] ∧
          e = .of (.itemTypeUnknown c.info)) := by
  unfold ofLists
  rw [bind_eq_error_iff, orError_eq_error_iff, itemCount_eq, hlists, Unique.exists_iff,
    orError_eq_ok_iff]
  refine or_congr_right (and_congr_right fun _ => ?_)
  by_cases hnull : itemType = .null
  · rw [if_pos hnull]
    by_cases hnil : c.elements = []
    · rw [if_pos (by simp [hnil]), bind_eq_error_iff, or_iff_right (orFault_ne_error _)]
      simp [hnil, pure, Except.pure]
    · rw [if_neg (by simp [hnil])]
      simp [hnull, hnil, throw, throwThe, MonadExceptOf.throw, eq_comm]
  · rw [if_neg hnull]
    refine iff_of_false (fun h => ?_) fun h => hnull h.1
    -- there is a builder for the type, and pushing to it can fail with a fault only
    rcases bind_eq_error_iff.1 h with h | ⟨b, -, h⟩
    · obtain ⟨b, hb, -⟩ := Builder.exists_ofType hnull _
      cases hb.symm.trans (orError_eq_error_iff.1 h)
    · rcases bind_eq_error_iff.1 h with h | ⟨b', -, h⟩
      · exact orFault_ne_error _ h
      · cases h

/-- Columns are refused for the stated reasons. -/
theorem ofColumn_eq_error_iff (ha : c.Aligned) :
    ofColumn limit c = .error (.error e) ↔ ∃ cause, Refuses limit c cause ∧ e = .of cause := by
  rcases ofColumn_shape limit c with
    ⟨paths, rfl⟩ | ⟨itemType, cells, hlists⟩ | ⟨hpath, hlists, hrefused⟩
  · rw [refuses_path_iff, ← ofPaths_eq_error_iff ha]
    rfl
  · obtain ⟨lists, hpresent⟩ := exists_presentLists ha hlists.size_eq
    obtain ⟨hitems, -⟩ :=
      listItems_of_presentLists hlists.size_eq (fun _ _ => hlists.get_eq) hpresent
    rw [refuses_lists_iff hlists, ← ofLists_eq_error_iff hitems, ofColumn_of_hasLists hlists,
      hpresent]
    rfl
  · rw [refuses_other_iff hpath hlists, hrefused]
    simp [eq_comm]

/-- The elements stand in rows of the column. -/
theorem inRange_of_ofColumn (h : ofColumn limit c = .ok u) : InRange c.size u.offsets := by
  rw [offsets_of_ofColumn h]
  intro i hi
  obtain ⟨x, hx, rfl⟩ := List.mem_map.1 hi
  obtain ⟨v, hlt, -⟩ := Column.exists_row_of_mem_elements hx
  exact hlt

end Unfolded

/-! ## Contexts -/

namespace Context

variable {ctx gathered : Context} {key : Nat} {limit : Option UInt64} {column : Column}
  {u : Unfolded}

theorem sound_of_obtained
    (h : ∀ (tag : Nat) (c : Column), ctx.get? tag = some c → c.Obtained Value.WellTyped) :
    ctx.Sound :=
  fun tag c hc => ⟨(h tag c hc).aligned, (h tag c hc).listsTyped⟩

/-- Once its column is unfolded, a context is gathered. -/
theorem exists_gather_of_ofColumn (hu : ctx.Uniform)
    (ha : ∀ (tag : Nat) (c : Column), ctx.get? tag = some c → c.Aligned)
    (hkey : ctx.get? key = some column) (h : Unfolded.ofColumn limit column = .ok u) :
    ∃ gathered, ctx.gather u.offsets = .ok gathered := by
  have hrange := Unfolded.inRange_of_ofColumn h
  rw [hu key column hkey] at hrange
  exact exists_gather_of_aligned hu ha hrange

/-- Once a context is gathered, the elements can be put into it, whatever tag they are put under and
whether or not lengths are verified. -/
theorem exists_set_of_gather (hu : ctx.Uniform) (hkey : ctx.get? key = some column)
    (h : Unfolded.ofColumn limit column = .ok u) (hgathered : ctx.gather u.offsets = .ok gathered)
    (tag : Nat) : ∃ out, gathered.set tag u.column = .ok out := by
  have hgather : Realigned ctx (fun _ => True) _ gathered := realigned_of_gather hu hgathered
  exact exists_set hgather.uniform (size_eq_rowCount_of_gather hgather.uniform hkey h hgathered) tag

/-- Why a context can't be unfolded. -/
inductive UnfoldRefused (ctx : Context) (key : Nat) (limit : Option UInt64) : Cause → Prop where
  | missingKey (h : ctx.get? key = none) : UnfoldRefused ctx key limit (.missingKey key)
  | column {c : Column} {cause : Cause} (hc : ctx.get? key = some c)
      (h : Unfolded.Refuses limit c cause) : UnfoldRefused ctx key limit cause

/-- A context is refused exactly if it has no column to unfold, or one that is refused. -/
theorem unfold_eq_error_iff (hu : ctx.Uniform) (hs : ctx.Sound) (tag : Nat) (settings : Settings)
    (e : Error) :
    ctx.unfold key tag settings = .error (.error e) ↔
      ∃ cause, ctx.UnfoldRefused key settings.unfoldLimit cause ∧ e = .of cause := by
  unfold unfold
  cases hkey : ctx.get? key with
  | none =>
    constructor
    · rintro ⟨⟩
      exact ⟨_, .missingKey hkey, rfl⟩
    · rintro ⟨cause, hcause, rfl⟩
      cases hcause with
      | missingKey => rfl
      | column hc => simp [hkey] at hc
  | some column =>
    have hcolumn : Unfolded.ofColumn settings.unfoldLimit column = .error (.error e) ↔ _ :=
      Unfolded.ofColumn_eq_error_iff (hs key column hkey).1
    constructor
    · intro h
      rcases bind_eq_error_iff.1 h with h | ⟨u, hunfolded, h⟩
      · obtain ⟨cause, hcause, he⟩ := hcolumn.1 h
        exact ⟨cause, .column hkey hcause, he⟩
      · rcases bind_eq_error_iff.1 h with h | ⟨gathered, hgathered, h⟩
        · exact absurd h (orFault_ne_error _)
        · obtain ⟨out, hset⟩ :=
            exists_set_of_gather hu hkey hunfolded (orFault_eq_ok_iff.1 hgathered) tag
          cases hset.symm.trans (orError_eq_error_iff.1 h)
    · rintro ⟨cause, hcause, he⟩
      cases hcause with
      | missingKey h => simp [hkey] at h
      | column hc h =>
        obtain rfl := Option.some.inj (hkey.symm.trans hc)
        exact bind_eq_error_iff.2 (.inl (hcolumn.2 ⟨cause, h, he⟩))

theorem exists_unfold_of_aligned (hu : ctx.Uniform)
    (ha : ∀ (tag : Nat) (c : Column), ctx.get? tag = some c → c.Aligned) {settings : Settings}
    (hkey : ctx.get? key = some column)
    (h : Unfolded.ofColumn settings.unfoldLimit column = .ok u) (tag : Nat) :
    ∃ out, ctx.unfold key tag settings = .ok out := by
  obtain ⟨gathered, hgathered⟩ := exists_gather_of_ofColumn hu ha hkey h
  obtain ⟨out, hset⟩ := exists_set_of_gather hu hkey h hgathered tag
  refine ⟨out, ?_⟩
  unfold unfold
  rw [hkey]
  exact bind_eq_ok_iff.2 ⟨u, h, bind_eq_ok_iff.2
    ⟨gathered, orFault_eq_ok_iff.2 hgathered, orError_eq_ok_iff.2 hset⟩⟩

theorem exists_unfold (hu : ctx.Uniform) (hs : ctx.Sound) {settings : Settings}
    (hkey : ctx.get? key = some column)
    (h : Unfolded.ofColumn settings.unfoldLimit column = .ok u) (tag : Nat) :
    ∃ out, ctx.unfold key tag settings = .ok out :=
  exists_unfold_of_aligned hu hs.aligned hkey h tag

/-- A context whose columns have one size is unfolded unless it is refused, and it is refused for
the stated reasons only, each with its error: there is no column under the key, it has no paths and
no lists, the limit is exceeded, or, within the limit, there are items of a type that is not known.
In particular, putting the elements never fails. The columns are obtained in any way, and the one to
unfold has no lists of different item types among its elements. -/
theorem unfold_refused_iff (hu : ctx.Uniform)
    (hcolumns : ∀ (tag : Nat) (c : Column), ctx.get? tag = some c → c.Obtained Value.WellTyped)
    (hclash : ∀ c, ctx.get? key = some c → ¬ c.NestedClash) (tag : Nat) (settings : Settings) :
    (∀ e, ctx.unfold key tag settings = .error (.error e) ↔
        ∃ cause, ctx.UnfoldRefused key settings.unfoldLimit cause ∧ e = .of cause) ∧
      ((∃ out, ctx.unfold key tag settings = .ok out) ↔
        ∀ cause, ¬ ctx.UnfoldRefused key settings.unfoldLimit cause) ∧
      ∀ column u gathered, ctx.get? key = some column →
        Unfolded.ofColumn settings.unfoldLimit column = .ok u →
          ctx.gather u.offsets = .ok gathered → ∃ out, gathered.set tag u.column = .ok out := by
  have hs := sound_of_obtained hcolumns
  have herror : ∀ e, ctx.unfold key tag settings = .error (.error e) ↔ _ :=
    unfold_eq_error_iff hu hs tag settings
  refine ⟨herror, ⟨fun hok cause hcause => ?_, fun hcauses => ?_⟩, ?_⟩
  · obtain ⟨out, hout⟩ := hok
    cases hout.symm.trans ((herror _).2 ⟨cause, hcause, rfl⟩)
  · cases hkey : ctx.get? key with
    | none => exact absurd (.missingKey hkey) (hcauses _)
    | some column =>
      obtain ⟨ha, ht⟩ := hs key column hkey
      obtain ⟨u, hunfolded⟩ : ∃ u, Unfolded.ofColumn settings.unfoldLimit column = .ok u := by
        refine exists_ok_of_not_faults (fun hfault => ?_) fun e he => ?_
        · exact hclash column hkey ((Unfolded.faults_ofColumn_iff ha ht).1 hfault).2
        · obtain ⟨cause, hcause, -⟩ := (Unfolded.ofColumn_eq_error_iff ha).1 he
          exact hcauses cause (.column hkey hcause)
      exact exists_unfold hu hs hkey hunfolded tag
  · exact fun column u gathered hkey h hgathered => exists_set_of_gather hu hkey h hgathered tag

/-- One row, with a list of two nulls. -/
def nullsColumn : Column := .value ⟨.lists .null [⟨.null, [.null, .null]⟩], none⟩

theorem obtained_nullsColumn : nullsColumn.Obtained Value.WellTyped := by
  have hnew : Builder.ofType .list false
      = .ok (.value (ValueBuilder.ofStorage (.lists .null []) false)) := rfl
  have hb : (Builder.value (ValueBuilder.ofStorage (.lists .null []) false)).Reachable
      Value.WellTyped := .fresh (Builder.fresh_of_ofType hnew)
  have hnulls : (Value.list .null [.null, .null]).WellTyped :=
    .list rfl fun v hv => by
      rcases List.mem_pair.1 hv with rfl | rfl <;> exact .plain rfl
  exact .finish (hb.pushValue hnulls rfl) 0 none

/-- A context with that column. -/
def nullsSample : Context := ⟨[some nullsColumn], true⟩

/-- At most one row is to be made. -/
def oneRow : Settings := Settings.defaults.put { Setting.maxUnfoldRows with value := .uint64 1 }

/-- Two nulls of a list whose item type is not known exceed a limit of one row. Without a limit, it
is the item type that is missing. -/
theorem unfold_refused_nullsSample :
    nullsSample.unfold 0 1 oneRow = .error (.error (.of (.rowLimit 1))) ∧
      nullsSample.unfold 0 1 Settings.defaults
        = .error (.error (.of (.itemTypeUnknown nullsColumn.info))) := by
  have hcolumn : ∀ (tag : Nat) (c : Column), nullsSample.get? tag = some c → c = nullsColumn := by
    intro tag c hc
    cases tag <;> cases hc
    rfl
  have hu : nullsSample.Uniform := uniform_of_size 1 fun tag c hc => by
    rw [hcolumn tag c hc]
    rfl
  have hcolumns : ∀ (tag : Nat) (c : Column), nullsSample.get? tag = some c →
      c.Obtained Value.WellTyped := fun tag c hc => by
    rw [hcolumn tag c hc]
    exact obtained_nullsColumn
  have helements : nullsColumn.elements = [(0, .null), (0, .null)] := rfl
  have hclash : ∀ c, nullsSample.get? 0 = some c → ¬ c.NestedClash := by
    rintro c ⟨⟩ ⟨x, hx, y, -, hclash⟩
    have hx : x = (0, .null) := by simpa [helements] using hx
    exact hclash.1 (by rw [hx]; rfl)
  obtain ⟨hlimited, -⟩ := unfold_refused_iff hu hcolumns hclash 1 oneRow
  obtain ⟨hunlimited, -⟩ := unfold_refused_iff hu hcolumns hclash 1 Settings.defaults
  refine ⟨(hlimited _).2 ⟨_, .column rfl (.rowLimit rfl (by decide)), rfl⟩,
    (hunlimited _).2 ⟨_, .column rfl (.itemTypeUnknown rfl rfl (by simp [helements]) ?_), rfl⟩⟩
  intro l hl
  cases hl

end Context

end ColumnFlow
