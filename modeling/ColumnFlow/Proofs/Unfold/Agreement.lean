import ColumnFlow.Proofs.Builder.Faithful
import ColumnFlow.Proofs.Unfold.Refusals

/-!
# Paths unfold like lists

Paths and lists are unfolded by different code: the limit is checked after each path but once for
all lists, and vertices are pushed to a builder that is fixed for paths and chosen for lists. Both
come to the same (`Unfolded.ofVertices`), so a column of paths and the column of the lists of their
vertices can stand for each other in a context (`Context.unfold_paths_eq_lists`). There is such a
column of lists for all paths (`Column.ListsPaths.exists_column`).
-/

namespace ColumnFlow

open Rows

/-! ## Paths as lists -/

namespace Path

/-- The vertices of a path as a list. -/
def toListValue (p : Path) : ListValue := ⟨.vertex, p.vertices.map Value.vertex⟩

theorem ofItems_vertices (p : Path) :
    ListValue.ofItems .vertex (p.vertices.map Value.vertex) = .ok p.toListValue := by
  refine ListValue.ofItems_eq_ok_iff.2 ⟨fun v hv => ?_, rfl⟩
  obtain ⟨x, -, rfl⟩ := List.mem_map.1 hv
  exact .inr rfl

/-- What is pushed for a row of paths: the list that is made of its vertices, or null where there is
no path. -/
def makeListRow : Option Path → Except Error Value
  | some p => do return (← ListValue.ofItems .vertex (p.vertices.map Value.vertex)).toValue
  | none => return .null

/-- What `makeListRow` makes: no path is refused. -/
def toListRow : Option Path → Value
  | some p => p.toListValue.toValue
  | none => .null

theorem makeListRow_eq (row : Option Path) : makeListRow row = .ok (toListRow row) := by
  cases row with
  | none => rfl
  | some p =>
    rw [makeListRow, ofItems_vertices]
    rfl

theorem mapM_makeListRow (rows : List (Option Path)) :
    rows.mapM makeListRow = .ok (rows.map toListRow) := by
  rw [mapM_eq_ok_iff, List.map_map]
  exact List.map_congr_left fun row _ => makeListRow_eq row

/-- The vertices of the paths that are present, in order. -/
def visited (rows : List (Option Path)) : List Vertex := rows.flatMap (·.elim [] vertices)

theorem isReserved_toListRow (row : Option Path) : (toListRow row).isReserved = false := by
  cases row <;> rfl

theorem toRow_toListRow (row : Option Path) :
    (toListRow row).toRow = row.map fun p => p.toListValue.toValue := by
  cases row <;> rfl

end Path

/-- The columns that are built from the lists of paths, with the same rows absent. -/
inductive Column.ListsPaths (rows : List (Option Path)) : Column → Prop where
  | finish {optional : Bool} {values : List Value} {b b' : Builder}
      (hvalues : rows.mapM Path.makeListRow = .ok values)
      (hb : Builder.ofType .list optional = .ok b) (hpush : b.pushAll values = .ok b')
      (id : ArenaId) (arena : Option Arena) : ListsPaths rows (b'.finish id arena)

namespace Column.ListsPaths

variable {rows : List (Option Path)} {c : Column}

/-- An optional builder takes the lists of any paths: they all have one item type. -/
theorem exists_column (rows : List (Option Path)) : ∃ c, ListsPaths rows c := by
  have hlist : ElemType.list ≠ .null := by decide
  obtain ⟨b, hb, htype, hoptional, -, hitem⟩ := Builder.exists_ofType hlist true
  have hfits : ∀ v ∈ rows.map Path.toListRow, ¬ b.Refuses [] v := by
    intro v hv
    obtain ⟨row, -, rfl⟩ := List.mem_map.1 hv
    cases row with
    | none => simp [Path.toListRow, Builder.refuses_null_iff, hoptional]
    | some p =>
      rw [Builder.refuses_iff rfl, htype]
      simp [Path.toListRow, ListValue.toValue, Value.elemType]
  have hvertex : ∀ type ∈ (rows.map Path.toListRow).map Value.itemType,
      type = .null ∨ type = .vertex := by
    intro type htype
    rw [List.map_map] at htype
    obtain ⟨row, -, rfl⟩ := List.mem_map.1 htype
    cases row
    · exact .inl rfl
    · exact .inr rfl
  have hagree : ItemTypesAgree ((rows.map Path.toListRow).map Value.itemType) := by
    intro s hs t ht hclash
    have hs := (hvertex s hs).resolve_left hclash.1
    have ht := (hvertex t ht).resolve_left hclash.2.1
    exact hclash.2.2 (hs.trans ht.symm)
  obtain ⟨b', hpush⟩ := (Builder.exists_pushAll_iff_agree hitem hfits).2 hagree
  exact ⟨_, .finish (Path.mapM_makeListRow rows) hb hpush 0 none⟩

theorem exists_builder (h : ListsPaths rows c) :
    ∃ (b b' : Builder) (id : ArenaId) (arena : Option Arena), b.Fresh ∧
      b.profile.elemType = .list ∧ b.pushAll (rows.map Path.toListRow) = .ok b' ∧
      c = b'.finish id arena := by
  cases h with
  | @finish _ values b b' hvalues hb hpush id arena =>
    obtain rfl := Except.ok.inj ((Path.mapM_makeListRow rows).symm.trans hvalues)
    refine ⟨b, b', id, arena, Builder.fresh_of_ofType hb, ?_, hpush, rfl⟩
    cases hb
    rfl

theorem aligned (h : ListsPaths rows c) : c.Aligned := by
  obtain ⟨b, b', id, arena, hfresh, -, hpush, rfl⟩ := h.exists_builder
  obtain ⟨arena', harena⟩ := b'.finish_eq_toColumn id arena
  rw [harena]
  exact Builder.aligned_toColumn (Builder.size_of_pushAll hfresh.aligned hpush).1 arena'

theorem rows_eq (h : ListsPaths rows c) :
    c.rows = rows.map (Option.map fun p => p.toListValue.toValue) := by
  rw [Column.rows_eq_contents h.aligned]
  obtain ⟨b, b', id, arena, hfresh, -, hpush, rfl⟩ := h.exists_builder
  have hreal : ∀ v ∈ rows.map Path.toListRow, v.isReserved = false := by
    intro v hv
    obtain ⟨row, -, rfl⟩ := List.mem_map.1 hv
    exact Path.isReserved_toListRow row
  obtain ⟨-, hcontents⟩ := Builder.contents_of_pushAll hfresh.aligned hreal hpush
  obtain ⟨arena', harena⟩ := b'.finish_eq_toColumn id arena
  rw [harena, Builder.contents_toColumn, hcontents, hfresh.contents_eq, List.nil_append,
    List.map_map]
  exact List.map_congr_left fun row _ => Path.toRow_toListRow row

theorem size_eq (h : ListsPaths rows c) : c.size = rows.length := by
  simpa [Column.rows] using congrArg List.length h.rows_eq

/-- A present path tells the item type. -/
theorem hasLists (h : ListsPaths rows c) {p : Path} (hp : some p ∈ rows) :
    ∃ cells, c.HasLists .vertex cells := by
  obtain ⟨b, b', id, arena, hfresh, hlist, hpush, rfl⟩ := h.exists_builder
  obtain ⟨hprofile, hcommon⟩ := Builder.types_of_pushAll hfresh.itemType_eq hpush
  have hknown : b'.itemType = .vertex := by
    have hmem : ElemType.vertex ∈ (rows.map Path.toListRow).map Value.itemType := by
      rw [List.map_map]
      exact List.mem_map.2 ⟨some p, hp, rfl⟩
    exact ((hcommon.of_mem _ hmem).resolve_left (by decide)).symm
  have htype : (b'.finish id arena).elemType = .list :=
    (congrArg Profile.elemType ((b'.profile_finish id arena).trans hprofile)).trans hlist
  obtain ⟨itemType, cells, hlists⟩ := Column.elemType_eq_list_iff.1 htype
  rw [← hknown, ← b'.itemType_finish id arena, hlists.itemType_eq]
  exact ⟨cells, hlists⟩

end Column.ListsPaths

/-! ## What both come to -/

namespace Unfolded

variable {limit : Option UInt64} {c : Column} {paths : PathColumn}

/-- Vertices are pushed one after the other to a builder that is not optional. -/
theorem pushAll_vertices (c : MixedVertices) (vs : List Vertex) :
    (Builder.mixed c).pushAll (vs.map Value.vertex)
      = .ok (.mixed (vs.foldl MixedVertices.push c)) := by
  induction vs generalizing c with
  | nil => rfl
  | cons v vs ih => exact Builder.pushAll_cons_eq_ok_iff.2 ⟨.mixed (c.push v), rfl, ih (c.push v)⟩

/-- The builder that is chosen for vertices without a null among them takes all of them. -/
theorem pushAll_ofVertices {items : List (Nat × Value)} {visited : List (Nat × Vertex)}
    (hitems : items = visited.map fun e => (e.1, Value.vertex e.2)) (arena : Option Arena) :
    ∃ b b', Builder.ofType .vertex (items.any fun e => e.2.isNull) = .ok b ∧
      b.pushAll (items.map (·.2)) = .ok b' ∧
        (⟨b'.toColumn arena, items.map (·.1)⟩ : Unfolded) = ofVertices visited := by
  have hnulls : items.any (fun e => e.2.isNull) = false := by
    rw [hitems, List.any_map, List.any_eq_false]
    exact fun e _ => Bool.false_ne_true
  have hvalues : items.map (·.2) = (visited.map (·.2)).map Value.vertex := by
    rw [hitems, List.map_map, List.map_map]
    rfl
  have hoffsets : items.map (·.1) = visited.map (·.1) := by
    rw [hitems, List.map_map]
    rfl
  refine ⟨.mixed (MixedVertices.empty false), _, by rw [hnulls]; rfl,
    by rw [hvalues]; exact pushAll_vertices _ _, ?_⟩
  rw [hoffsets, foldl_push_eq, List.map_map]
  rfl

/-- Lists whose items are vertices. -/
theorem ofLists_eq {lists : List (Nat × ListValue)} {visited : List (Nat × Vertex)}
    (hitems : listItems lists = visited.map fun e => (e.1, Value.vertex e.2)) :
    ofLists limit c .vertex lists = (do
      orError (checkLimit limit visited.length)
      return ofVertices visited) := by
  obtain ⟨b, b', hb, hpush, hmade⟩ := pushAll_ofVertices hitems c.arena
  rw [ofLists, itemCount_eq, congrArg List.length hitems, List.length_map]
  cases checkLimit limit visited.length with
  | error e => rfl
  | ok =>
    show _ = Except.ok (ofVertices visited)
    refine bind_eq_ok_iff.2 ⟨(), rfl, ?_⟩
    rw [if_neg (by decide), ← hmade]
    exact bind_eq_ok_iff.2
      ⟨b, orError_eq_ok_iff.2 hb, bind_eq_ok_iff.2 ⟨b', orFault_eq_ok_iff.2 hpush, rfl⟩⟩

/-- The column of lists has the vertices of the paths as its elements, each with its row. -/
theorem elements_of_listsPaths (h : Column.ListsPaths paths.contents c) :
    c.elements
      = (pathVertices paths.contents.zipIdx).map fun e => (e.1, Value.vertex e.2) := by
  rw [Column.elements, h.rows_eq, elementsFrom_map]
  exact elementsFrom_vertices 0 paths.contents

/-- Columns of paths and of their lists unfold to the same, or are refused for the same reason. -/
theorem ofColumn_eq_of_listsPaths (ha : paths.Aligned)
    (h : Column.ListsPaths paths.contents c) {p : Path} (hp : some p ∈ paths.contents) :
    ofColumn limit c = ofColumn limit (.path paths) := by
  obtain ⟨cells, hlists⟩ := h.hasLists hp
  obtain ⟨lists, hpresent⟩ := exists_presentLists h.aligned hlists.size_eq
  obtain ⟨hitems, -⟩ :=
    listItems_of_presentLists hlists.size_eq (fun _ _ => hlists.get_eq) hpresent
  rw [ofColumn_of_hasLists hlists, hpresent]
  show ofLists limit c .vertex lists = ofPaths limit paths
  rw [ofPaths_eq ha, ofLists_eq (hitems.trans (elements_of_listsPaths h))]

/-- The vertices that come out are those of the paths, in order. -/
theorem map_pathVertices (n : Nat) (rows : List (Option Path)) :
    (pathVertices (rows.zipIdx n)).map (·.2) = Path.visited rows := by
  induction rows generalizing n with
  | nil => rfl
  | cons row rows ih =>
    have hcons : pathVertices ((row :: rows).zipIdx n)
        = (row.elim [] Path.vertices).map (n, ·) ++ pathVertices (rows.zipIdx (n + 1)) := rfl
    rw [hcons, List.map_append, ih, List.map_map]
    show List.map id _ ++ _ = _
    rw [List.map_id]
    rfl

end Unfolded

/-! ## Contexts -/

namespace Context

variable {ctx ctx' out : Context} {key tag : Nat} {settings : Settings} {column : Column}

theorem unfold_eq_error_of_ofColumn {e : Error} (hkey : ctx.get? key = some column)
    (h : Unfolded.ofColumn settings.unfoldLimit column = .error (.error e)) :
    ctx.unfold key tag settings = .error (.error e) := by
  unfold unfold
  rw [hkey]
  exact bind_eq_error_iff.2 (.inl h)

/-- What stands in an unfolded context: the elements under `tag`, and the gathered columns. -/
theorem get?_of_unfold {u : Unfolded} (hkey : ctx.get? key = some column)
    (hu : Unfolded.ofColumn settings.unfoldLimit column = .ok u)
    (h : ctx.unfold key tag settings = .ok out) :
    out.get? tag = some u.column ∧ ∀ a ≠ tag,
      (ctx.get? a = none ∧ out.get? a = none) ∨
        ∃ c d, ctx.get? a = some c ∧ c.gather u.offsets = .ok d ∧ out.get? a = some d := by
  obtain ⟨column', u', gathered, hkey', hu', hgathered, hset⟩ := exists_of_unfold h
  obtain rfl := Option.some.inj (hkey.symm.trans hkey')
  obtain rfl := Except.ok.inj (hu.symm.trans hu')
  refine ⟨by rw [get?_of_set hset, if_pos rfl], fun a ha => ?_⟩
  rw [get?_of_set hset, if_neg ha]
  exact get?_of_gather hgathered a

/-- Contexts that have the same columns, but for columns under `key` that unfold to the same, have
the same columns after unfolding, but for those under `key`. -/
theorem unfold_congr {c c' : Column} {u : Unfolded} {n : Nat} (hkey : ctx.get? key = some c)
    (hkey' : ctx'.get? key = some c') (hother : ∀ a ≠ key, ctx'.get? a = ctx.get? a)
    (hsize : ∀ (a : Nat) (d : Column), ctx.get? a = some d → d.size = n)
    (haligned : ∀ (a : Nat) (d : Column), ctx.get? a = some d → d.Aligned)
    (hsize' : c'.size = n) (haligned' : c'.Aligned)
    (hu : Unfolded.ofColumn settings.unfoldLimit c = .ok u)
    (hu' : Unfolded.ofColumn settings.unfoldLimit c' = .ok u) :
    ∃ out out', ctx.unfold key tag settings = .ok out ∧ ctx'.unfold key tag settings = .ok out' ∧
      out.get? tag = some u.column ∧ out'.get? tag = some u.column ∧
        ∀ a ≠ key, out.get? a = out'.get? a := by
  -- the columns of the second context are those of the first, or the one under the key
  have hcolumn : ∀ (a : Nat) (d : Column), ctx'.get? a = some d → d = c' ∨ ctx.get? a = some d := by
    intro a d hd
    by_cases ha : a = key
    · rw [ha, hkey'] at hd
      exact .inl (Option.some.inj hd).symm
    · exact .inr ((hother a ha).symm.trans hd)
  have hsizes : ∀ (a : Nat) (d : Column), ctx'.get? a = some d → d.size = n := fun a d hd =>
    (hcolumn a d hd).elim (fun heq => heq ▸ hsize') (hsize a d)
  have haligneds : ∀ (a : Nat) (d : Column), ctx'.get? a = some d → d.Aligned := fun a d hd =>
    (hcolumn a d hd).elim (fun heq => heq ▸ haligned') (haligned a d)
  obtain ⟨out, hout⟩ := exists_unfold_of_aligned (uniform_of_size n hsize) haligned hkey hu tag
  obtain ⟨out', hout'⟩ :=
    exists_unfold_of_aligned (uniform_of_size n hsizes) haligneds hkey' hu' tag
  obtain ⟨htag, hrest⟩ := get?_of_unfold hkey hu hout
  obtain ⟨htag', hrest'⟩ := get?_of_unfold hkey' hu' hout'
  refine ⟨out, out', hout, hout', htag, htag', fun a ha => ?_⟩
  by_cases hat : a = tag
  · rw [hat, htag, htag']
  · have hsame := hother a ha
    rcases hrest a hat with ⟨hnone, hnew⟩ | ⟨d, new, hd, hgather, hnew⟩ <;>
      rcases hrest' a hat with ⟨hnone', hnew'⟩ | ⟨d', new', hd', hgather', hnew'⟩
    · rw [hnew, hnew']
    · rw [hd', hnone] at hsame
      cases hsame
    · rw [hnone', hd] at hsame
      cases hsame
    · rw [hd, hd'] at hsame
      obtain rfl := Option.some.inj hsame
      rw [hnew, hnew', Except.ok.inj (hgather.symm.trans hgather')]

/-- A column of paths, some of which is present, and any column of the lists of their vertices can
stand for each other when they are unfolded. In two contexts that have the same columns otherwise,
all of one size, both are refused with one error, for more vertices than the limit, or both are
unfolded. Then both have the same column under the tag, with the vertices of all paths in order and
the set of their labels, and the same columns under all tags but the key. -/
theorem unfold_paths_eq_lists {paths : PathColumn} {rows : List (Option Path)} {lists : Column}
    (hrows : RecordColumn.rows paths = .ok rows) (hpresent : ∃ p, some p ∈ rows)
    (hlists : Column.ListsPaths rows lists) (hkey : ctx.get? key = some (.path paths))
    (hkey' : ctx'.get? key = some lists) (hother : ∀ a ≠ key, ctx'.get? a = ctx.get? a)
    (hsize : ∀ (a : Nat) (c : Column), ctx.get? a = some c → c.size = paths.size)
    (haligned : ∀ (a : Nat) (c : Column), ctx.get? a = some c → c.Aligned) (tag : Nat)
    (settings : Settings) :
    (∃ limit, settings.unfoldLimit = some limit ∧ limit.toNat < (Path.visited rows).length ∧
        ctx.unfold key tag settings = .error (.error (.of (.rowLimit limit))) ∧
        ctx'.unfold key tag settings = .error (.error (.of (.rowLimit limit)))) ∨
      ∃ out out', ctx.unfold key tag settings = .ok out ∧
        ctx'.unfold key tag settings = .ok out' ∧
        out.get? tag = some (.vertex (.mixed ⟨Path.visited rows,
          LabelSet.ofList ((Path.visited rows).map Vertex.label), false⟩)) ∧
        ∀ a, a = tag ∨ a ≠ key → out.get? a = out'.get? a := by
  have ha : paths.Aligned := haligned key _ hkey
  obtain rfl : paths.contents = rows := Except.ok.inj ((RecordColumn.rows_eq ha).symm.trans hrows)
  obtain ⟨p, hp⟩ := hpresent
  have hvisited := Unfolded.map_pathVertices 0 paths.contents
  have hsame : Unfolded.ofColumn settings.unfoldLimit lists = _ :=
    Unfolded.ofColumn_eq_of_listsPaths ha hlists hp
  have hpaths : Unfolded.ofColumn settings.unfoldLimit (.path paths) = _ := Unfolded.ofPaths_eq ha
  rw [hpaths] at hsame
  cases hcheck : Unfolded.checkLimit settings.unfoldLimit
      (Unfolded.pathVertices paths.contents.zipIdx).length with
  | error e =>
    rw [hcheck] at hsame hpaths
    obtain ⟨limit, hlimit, hlt, rfl⟩ := Unfolded.checkLimit_eq_error_iff.1 hcheck
    refine .inl ⟨limit, hlimit, ?_, unfold_eq_error_of_ofColumn hkey hpaths,
      unfold_eq_error_of_ofColumn hkey' hsame⟩
    rwa [← hvisited, List.length_map]
  | ok =>
    rw [hcheck] at hsame hpaths
    have hlen : lists.size = paths.size := by
      rw [hlists.size_eq, RecordColumn.length_contents ha]
    obtain ⟨out, out', hout, hout', htag, htag', hrest⟩ :=
      unfold_congr hkey hkey' hother hsize haligned hlen hlists.aligned hpaths hsame
    refine .inr ⟨out, out', hout, hout', ?_, fun a hcase => ?_⟩
    · rw [htag, ← hvisited, List.map_map]
      rfl
    · rcases hcase with rfl | hne
      · rw [htag, htag']
      · exact hrest a hne

/-- Three rows: a path of two vertices, no path, and a path of one vertex. -/
def pathRows : List (Option Path) := [some ⟨[⟨1, 10⟩, ⟨2, 20⟩]⟩, none, some ⟨[⟨1, 10⟩]⟩]

/-- The column of these paths. -/
def pathsColumn : PathColumn :=
  ⟨[⟨[⟨1, 10⟩, ⟨2, 20⟩]⟩, Path.empty, ⟨[⟨1, 10⟩]⟩], some (Bitmap.ofList [true, false, true])⟩

/-- The column of their lists, before it is finished. -/
def listsBuilder : Builder := .value
  ⟨.lists .vertex [⟨.vertex, [.vertex ⟨1, 10⟩, .vertex ⟨2, 20⟩]⟩, ⟨.vertex, []⟩,
    ⟨.vertex, [.vertex ⟨1, 10⟩]⟩], some (Bitmap.ofList [true, false, true]), ArenaBuilder.empty⟩

theorem listsPaths_listsBuilder : Column.ListsPaths pathRows (listsBuilder.finish 0 none) := by
  have hnew : Builder.ofType .list true
      = .ok (.value (ValueBuilder.ofStorage (.lists .null []) true)) := rfl
  have hpush : (Builder.value (ValueBuilder.ofStorage (.lists .null []) true)).pushAll
      (pathRows.map Path.toListRow) = .ok listsBuilder := rfl
  exact .finish (Path.mapM_makeListRow pathRows) hnew hpush 0 none

/-- A column of three rows, under the key, beside a column of vertices. -/
def besideVertices (column : Column) : Context :=
  ⟨[some column, some (.vertex (.single ⟨3, [30, 31, 32], false⟩))], true⟩

/-- Unfolding in place without a limit, and beside the key beyond a limit of one row. -/
theorem unfold_paths_eq_lists_pathsColumn :
    (∃ out out', (besideVertices (.path pathsColumn)).unfold 0 0 Settings.defaults = .ok out ∧
      (besideVertices (listsBuilder.finish 0 none)).unfold 0 0 Settings.defaults = .ok out' ∧
      out.get? 0 = out'.get? 0 ∧ out.get? 1 = out'.get? 1) ∧
    (besideVertices (listsBuilder.finish 0 none)).unfold 0 2 oneRow
      = .error (.error (.of (.rowLimit 1))) := by
  have hcolumns : ∀ (a : Nat) (c : Column), (besideVertices (.path pathsColumn)).get? a = some c →
      c.size = pathsColumn.size ∧ c.Aligned := by
    intro a c hc
    match a, hc with
    | 0, rfl => exact ⟨rfl, Bitmap.aligned_ofList rfl⟩
    | 1, rfl => exact ⟨rfl, trivial⟩
  have hother : ∀ a ≠ 0, (besideVertices (listsBuilder.finish 0 none)).get? a
      = (besideVertices (.path pathsColumn)).get? a := by
    intro a ha
    cases a with
    | zero => exact absurd rfl ha
    | succ a => rfl
  have hrows : RecordColumn.rows pathsColumn = .ok pathRows := rfl
  have hagree := unfold_paths_eq_lists hrows ⟨_, List.mem_cons_self⟩ listsPaths_listsBuilder rfl rfl
    hother (fun a c hc => (hcolumns a c hc).1) fun a c hc => (hcolumns a c hc).2
  constructor
  · rcases hagree 0 Settings.defaults with ⟨_, hlimit, -⟩ | ⟨out, out', hout, hout', -, hsame⟩
    · cases hlimit
    · exact ⟨out, out', hout, hout', hsame 0 (.inl rfl), hsame 1 (.inr (by decide))⟩
  · rcases hagree 2 oneRow with ⟨limit, hlimit, -, -, hrefused⟩ | ⟨out, -, hout, -⟩
    · cases hlimit
      exact hrefused
    · cases hout

end Context

end ColumnFlow
