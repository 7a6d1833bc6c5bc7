import ColumnFlow.Proofs.Context.Alignment
import ColumnFlow.Proofs.Unfold.Faults

/-!
# Contexts that a caller can have

A caller starts without columns, puts columns that it has, and takes steps, in any order. If lengths
are verified, all columns of such a context have one size, and what holds of the columns that are put
and is kept by every step holds of all of them.
-/

namespace ColumnFlow.Context

open Rows

variable {ctx out : Context} {column : Column} {tag : Nat} {good : Column → Prop}

/-- The contexts with verified lengths that are reached by putting good columns and by steps. -/
inductive Reachable (good : Column → Prop) : Context → Prop where
  | empty {settings : Settings} (h : settings.verifiesLengths = true) :
      Reachable good (Context.empty settings)
  | set {ctx out : Context} {tag : Nat} {column : Column} (hctx : Reachable good ctx)
      (hcolumn : good column) (h : ctx.set tag column = .ok out) : Reachable good out
  | step {ctx out : Context} {step : Step} (hctx : Reachable good ctx)
      (h : step.run ctx = .ok out) : Reachable good out

/-! ## Verified lengths -/

theorem verifyLengths_of_set (h : ctx.set tag column = .ok out) :
    out.verifyLengths = ctx.verifyLengths := by
  unfold set at h
  split at h
  · split at h
    · split at h <;> cases h
      rfl
    · cases h
      rfl
  · cases h
    rfl

theorem verifyLengths_of_mapColumns {f : Column → Except Fault Column}
    (h : ctx.mapColumns f = .ok out) : out.verifyLengths = ctx.verifyLengths := by
  obtain ⟨slots, -, ⟨⟩⟩ := bind_eq_ok_iff.1 h
  rfl

/-- No step turns verification on or off. -/
theorem verifyLengths_of_step {step : Step} (h : step.run ctx = .ok out) :
    out.verifyLengths = ctx.verifyLengths := by
  cases step with
  | gather offsets => exact verifyLengths_of_mapColumns (orFault_eq_ok_iff.1 h)
  | gatherOptional offsets => exact verifyLengths_of_mapColumns (orFault_eq_ok_iff.1 h)
  | remove tag =>
    cases h
    unfold remove
    split <;> rfl
  | unfold key tag settings =>
    obtain ⟨column, u, gathered, -, -, hgathered, hset⟩ := exists_of_unfold h
    exact (verifyLengths_of_set hset).trans (verifyLengths_of_mapColumns hgathered)

theorem Reachable.verifyLengths (h : ctx.Reachable good) : ctx.verifyLengths = true := by
  induction h with
  | empty h => exact h
  | set _ _ h ih => exact (verifyLengths_of_set h).trans ih
  | step _ h ih => exact (verifyLengths_of_step h).trans ih

/-! ## Columns of one size -/

theorem get?_of_firstOther?_eq_none (h : ctx.firstOther? tag = none) {a : Nat} (ha : a ≠ tag) :
    ctx.get? a = none := by
  rw [firstOther?, List.findSome?_eq_none_iff] at h
  cases hslot : ctx.slots[a]? with
  | none => rw [get?, hslot]; rfl
  | some slot =>
    have hnone : (if a = tag then none else slot) = none :=
      h (slot, a) (List.mem_zipIdx_iff_getElem?.2 hslot)
    rw [if_neg ha] at hnone
    rw [get?, hslot, hnone]
    rfl

theorem exists_of_firstOther? {other : Column} (h : ctx.firstOther? tag = some other) :
    ∃ a, a ≠ tag ∧ ctx.get? a = some other := by
  obtain ⟨⟨slot, a⟩, hmem, hslot⟩ := List.exists_of_findSome?_eq_some h
  have hsome : (if a = tag then none else slot) = some other := hslot
  have ha : a ≠ tag := by
    intro heq
    rw [if_pos heq] at hsome
    cases hsome
  rw [if_neg ha] at hsome
  refine ⟨a, ha, ?_⟩
  rw [get?, List.mem_zipIdx_iff_getElem?.1 hmem, hsome]
  rfl

/-- A column of another size is not put. -/
theorem uniform_of_set (hv : ctx.verifyLengths = true) (hu : ctx.Uniform)
    (h : ctx.set tag column = .ok out) : out.Uniform := by
  have hother : ∀ (a : Nat) (c : Column), a ≠ tag → ctx.get? a = some c → c.size = column.size := by
    intro a c ha hc
    unfold set at h
    rw [if_pos hv] at h
    cases hfirst : ctx.firstOther? tag with
    | none =>
      rw [get?_of_firstOther?_eq_none hfirst ha] at hc
      cases hc
    | some other =>
      rw [hfirst] at h
      obtain ⟨b, -, hb⟩ := exists_of_firstOther? hfirst
      by_cases hsize : other.size = column.size
      · rw [hu a c hc, ← hu b other hb, hsize]
      · cases (if_neg hsize).symm.trans h
  refine uniform_of_size column.size fun a c hc => ?_
  rw [get?_of_set h] at hc
  split at hc
  · cases hc
    rfl
  · next ha => exact hother a c ha hc

theorem uniform_empty (settings : Settings) : (empty settings).Uniform := by
  intro tag c hc
  cases hc

theorem Reachable.uniform (h : ctx.Reachable good) : ctx.Uniform := by
  induction h with
  | empty => exact uniform_empty _
  | set hctx _ h ih => exact uniform_of_set hctx.verifyLengths ih h
  | step _ h ih =>
    obtain ⟨source, hstep⟩ := realigned_of_step ih h
    exact hstep.uniform

/-! ## Sound columns -/

/-- All columns have presence bits for their rows and lists of the item types they keep. -/
def Sound (ctx : Context) : Prop :=
  ∀ (tag : Nat) (c : Column), ctx.get? tag = some c → c.Aligned ∧ c.ListsTyped

theorem Sound.aligned (hs : ctx.Sound) (tag : Nat) (c : Column) (hc : ctx.get? tag = some c) :
    c.Aligned :=
  (hs tag c hc).1

theorem sound_of_set (hs : ctx.Sound) (hcolumn : column.Aligned ∧ column.ListsTyped)
    (h : ctx.set tag column = .ok out) : out.Sound := by
  intro a c hc
  rw [get?_of_set h] at hc
  split at hc
  · cases hc
    exact hcolumn
  · exact hs a c hc

theorem sound_of_mapColumns {f : Column → Except Fault Column} (hs : ctx.Sound)
    (hf : ∀ c d, c.Aligned → c.ListsTyped → f c = .ok d → d.Aligned ∧ d.ListsTyped)
    (h : ctx.mapColumns f = .ok out) : out.Sound := by
  intro a d hd
  rcases get?_of_mapColumns h a with ⟨-, hnone⟩ | ⟨c, d', hc, hfc, hd'⟩
  · rw [hd] at hnone
    cases hnone
  · obtain rfl := Option.some.inj (hd.symm.trans hd')
    obtain ⟨ha, ht⟩ := hs a c hc
    exact hf c d ha ht hfc

theorem sound_of_gather {offsets : List Nat} (hs : ctx.Sound) (h : ctx.gather offsets = .ok out) :
    out.Sound :=
  sound_of_mapColumns hs (fun _ _ ha ht hd =>
    ⟨(Column.gathered_of_gather ha hd).aligned, Column.listsTyped_of_gather ht hd⟩) h

theorem sound_of_step {step : Step} (hs : ctx.Sound) (h : step.run ctx = .ok out) : out.Sound := by
  cases step with
  | gather offsets => exact sound_of_gather hs (orFault_eq_ok_iff.1 h)
  | gatherOptional offsets =>
    exact sound_of_mapColumns hs (fun _ _ ha ht hd =>
      ⟨(Column.gatheredOptional_of_gatherOptional ha hd).aligned,
        Column.listsTyped_of_gatherOptional ht hd⟩) (orFault_eq_ok_iff.1 h)
  | remove tag =>
    cases h
    intro a c hc
    rw [get?_remove] at hc
    split at hc
    · cases hc
    · exact hs a c hc
  | unfold key tag settings =>
    obtain ⟨column, u, gathered, hkey, hcolumn, hgathered, hset⟩ := exists_of_unfold h
    obtain ⟨ha, ht⟩ := hs key column hkey
    have hu := And.intro (Unfolded.aligned_of_ofColumn ha hcolumn)
      (Unfolded.listsTyped_of_ofColumn ht hcolumn)
    exact sound_of_set (sound_of_gather hs hgathered) hu hset

theorem Reachable.sound (h : ctx.Reachable (Column.Derived Value.WellTyped)) : ctx.Sound := by
  induction h with
  | empty =>
    intro tag c hc
    cases hc
  | set _ hcolumn h ih => exact sound_of_set ih ⟨hcolumn.aligned, hcolumn.listsTyped⟩ h
  | step _ h ih => exact sound_of_step ih h

/-! ## When unfolding faults -/

/-- A context is gathered by offsets that name its rows. -/
theorem exists_gather_of_aligned (hu : ctx.Uniform)
    (ha : ∀ (tag : Nat) (c : Column), ctx.get? tag = some c → c.Aligned) {offsets : List Nat}
    (ho : InRange ctx.rowCount offsets) : ∃ out, ctx.gather offsets = .ok out := by
  have hslot : ∀ slot ∈ ctx.slots, ∃ slot', Option.mapM (Column.gather · offsets) slot = .ok slot' := by
    intro slot hmem
    cases slot with
    | none => exact ⟨none, rfl⟩
    | some c =>
      obtain ⟨tag, hplace⟩ := List.mem_iff_getElem?.1 hmem
      have hc : ctx.get? tag = some c := by
        rw [get?, hplace]
        rfl
      have hin : InRange c.size offsets := by rwa [hu tag c hc]
      obtain ⟨d, hd, -⟩ := Column.exists_gathered (ha tag c hc) hin
      exact ⟨some d, map_eq_ok_iff.2 ⟨d, hd, rfl⟩⟩
  obtain ⟨slots, hslots⟩ := exists_mapM hslot
  exact ⟨_, bind_eq_ok_iff.2 ⟨slots, hslots, rfl⟩⟩

theorem exists_gather (hu : ctx.Uniform) (hs : ctx.Sound) {offsets : List Nat}
    (ho : InRange ctx.rowCount offsets) : ∃ out, ctx.gather offsets = .ok out :=
  exists_gather_of_aligned hu hs.aligned ho

/-- Unfolding never faults but for one case: two elements of the column are lists of different item
types, and the limit lets the elements through. This is so whatever the key, the tag and the
settings, of every context with verified lengths that can be reached with columns whose lists were
made from items of their types. -/
theorem unfold_faults_iff (h : ctx.Reachable (Column.Derived Value.WellTyped)) (key tag : Nat)
    (settings : Settings) :
    Faults (ctx.unfold key tag settings)
      ↔ ∃ c, ctx.get? key = some c ∧
          Unfolded.WithinLimit settings.unfoldLimit c.elements.length ∧ c.NestedClash := by
  unfold unfold
  cases hkey : ctx.get? key with
  | none =>
    refine iff_of_false (not_faults_error _) fun hclash => ?_
    obtain ⟨c, hc, -⟩ := hclash
    cases hc
  | some column =>
    obtain ⟨ha, ht⟩ := h.sound key column hkey
    rw [faults_bind_iff, Unfolded.faults_ofColumn_iff ha ht]
    constructor
    · rintro (hclash | ⟨u, hu, hrest⟩)
      · exact ⟨column, rfl, hclash⟩
      · -- the elements stand in rows of the column, and all columns have these
        have hrange : InRange ctx.rowCount u.offsets := by
          intro i hi
          rw [Unfolded.offsets_of_ofColumn hu] at hi
          obtain ⟨e, he, rfl⟩ := List.mem_map.1 hi
          obtain ⟨v, hlt, -⟩ := Column.exists_row_of_mem_elements he
          rwa [← h.uniform key column hkey]
        obtain ⟨gathered, hgathered⟩ := exists_gather h.uniform h.sound hrange
        rw [hgathered] at hrest
        exact absurd hrest (not_faults_orError _)
    · rintro ⟨c, ⟨⟩, hclash⟩
      exact .inl hclash

/-- One row with a list of two lists, one of numbers and one of texts. -/
def nestedList : Value :=
  .list .list [.list .int32 [.int32 1], .list .string [.string "a"]]

theorem wellTyped_nestedList : nestedList.WellTyped := by
  refine .list rfl fun v hv => ?_
  rcases List.mem_pair.1 hv with rfl | rfl
  all_goals
    refine .list rfl fun w hw => ?_
    rw [List.mem_singleton.1 hw]
    exact .plain rfl

/-- The column of that row. -/
def nestedColumn : Column := .value ⟨.lists .list [⟨.list, [.list .int32 [.int32 1],
  .list .string [.string "a"]]⟩], none⟩

theorem derived_nestedColumn : nestedColumn.Derived Value.WellTyped := by
  have hnew : Builder.ofType .list false
      = .ok (.value (ValueBuilder.ofStorage (.lists .null []) false)) := rfl
  have hb : (Builder.value (ValueBuilder.ofStorage (.lists .null []) false)).Reachable
      Value.WellTyped := .fresh (Builder.fresh_of_ofType hnew)
  exact .finish (hb.pushValue wellTyped_nestedList rfl) 0 none

/-- A context with that column. -/
def nestedSample : Context := ⟨[some nestedColumn], true⟩

theorem reachable_nestedSample : nestedSample.Reachable (Column.Derived Value.WellTyped) := by
  have hput : (Context.empty Settings.defaults).set 0 nestedColumn = .ok nestedSample := rfl
  exact .set (.empty rfl) derived_nestedColumn hput

theorem unfold_faults_iff_nestedSample : Faults (nestedSample.unfold 0 1 Settings.defaults) := by
  rw [unfold_faults_iff reachable_nestedSample]
  refine ⟨nestedColumn, rfl, fun limit hlimit => ?_, ?_⟩
  · cases hlimit
  · exact ⟨(0, .list .int32 [.int32 1]), by decide, (0, .list .string [.string "a"]), by decide,
      by decide, by decide, by decide⟩

/-- A list of lists of two item types can be put into a column and into a context, and it can't be
unfolded. -/
theorem fault_of_unfold_nestedSample :
    nestedSample.Reachable (Column.Derived Value.WellTyped) ∧
      nestedSample.unfold 0 1 Settings.defaults = .error (.fault (.itemType .int32 .string)) :=
  ⟨reachable_nestedSample, rfl⟩

end ColumnFlow.Context
