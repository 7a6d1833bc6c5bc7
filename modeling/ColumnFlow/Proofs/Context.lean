import ColumnFlow.Context
import ColumnFlow.Proofs.Column.RowSemantics

/-!
# What contexts hold

A context is a map from tags to columns, whatever stands in its slots. Each operation is described
by what `get?` answers afterwards, and the count of rows by the sizes of the columns.
-/

namespace ColumnFlow

open Rows

namespace Context

variable {ctx out : Context} {column : Column}

/-! ## Putting a column -/

theorem join_getElem?_putSlot (column : Column) (tag a : Nat) (slots : List (Option Column)) :
    (putSlot column tag slots)[a]?.join = if a = tag then some column else slots[a]?.join := by
  induction tag generalizing a slots with
  | zero => cases slots <;> cases a <;> simp [putSlot]
  | succ tag ih => cases slots <;> cases a <;> simp [putSlot, ih]

/-- If a column can be put into a context, it is, and no other one changes. -/
theorem get?_of_set {tag : Nat} (h : ctx.set tag column = .ok out) (a : Nat) :
    out.get? a = if a = tag then some column else ctx.get? a := by
  -- whether or not lengths are verified, what is stored is the same
  have hslots : out.slots = putSlot column tag ctx.slots := by
    unfold set at h
    by_cases hverify : ctx.verifyLengths
    · rw [if_pos hverify] at h
      cases hother : ctx.firstOther? tag with
      | none =>
        rw [hother] at h
        cases h
        rfl
      | some other =>
        rw [hother] at h
        by_cases hsize : other.size = column.size
        · cases (if_pos hsize).symm.trans h
          rfl
        · cases (if_neg hsize).symm.trans h
    · rw [if_neg hverify] at h
      cases h
      rfl
  rw [get?, hslots, join_getElem?_putSlot]
  rfl

/-! ## Removing a column -/

theorem trim_cons (slot : Option Column) (slots : List (Option Column)) :
    trim (slot :: slots) = if slot = none ∧ trim slots = [] then [] else slot :: trim slots := by
  cases slot <;> cases h : trim slots <;> simp [trim, h]

/-- Only empty slots are trimmed. -/
theorem join_getElem?_trim (slots : List (Option Column)) (a : Nat) :
    (trim slots)[a]?.join = slots[a]?.join := by
  induction slots generalizing a with
  | nil => rfl
  | cons slot slots ih =>
    rw [trim_cons]
    split
    · next hempty =>
      obtain ⟨hslot, htrim⟩ := hempty
      cases a with
      | zero => simp [hslot]
      | succ a => simpa [htrim] using ih a
    · cases a with
      | zero => rfl
      | succ a => simpa using ih a

/-- Removing a column changes no other one. -/
theorem get?_remove (ctx : Context) (tag a : Nat) :
    (ctx.remove tag).2.get? a = if a = tag then none else ctx.get? a := by
  unfold remove
  by_cases htag : tag < ctx.slots.length
  · rw [if_pos htag]
    show (trim (ctx.slots.set tag none))[a]?.join = _
    rw [join_getElem?_trim, List.getElem?_set, get?]
    by_cases ha : a = tag
    · simp [ha, htag]
    · simp [ha, Ne.symm ha]
  · rw [if_neg htag]
    split
    · next ha => rw [ha, get?, List.getElem?_eq_none (Nat.le_of_not_lt htag)]; rfl
    · rfl

/-! ## All columns -/

/-- What `f` makes of a column stands under its tag, and there are no other columns. -/
theorem get?_of_mapColumns {f : Column → Except Fault Column} (h : ctx.mapColumns f = .ok out)
    (a : Nat) :
    (ctx.get? a = none ∧ out.get? a = none) ∨
      ∃ c d, ctx.get? a = some c ∧ f c = .ok d ∧ out.get? a = some d := by
  obtain ⟨slots, hslots, ⟨⟩⟩ := bind_eq_ok_iff.1 h
  have hslot := congrArg (·[a]?) (mapM_eq_ok_iff.1 hslots)
  rw [List.getElem?_map, List.getElem?_map] at hslot
  rw [get?, get?]
  cases hold : ctx.slots[a]? with
  | none =>
    rw [hold] at hslot
    rw [Option.map_eq_none_iff.1 hslot.symm]
    exact .inl ⟨rfl, rfl⟩
  | some slot =>
    rw [hold] at hslot
    obtain ⟨slot', hslot', hok⟩ := Option.map_eq_some_iff.1 hslot.symm
    rw [hslot']
    cases slot with
    | none =>
      cases hok
      exact .inl ⟨rfl, rfl⟩
    | some c =>
      obtain ⟨d, hd, rfl⟩ := map_eq_ok_iff.1 hok.symm
      exact .inr ⟨c, d, rfl, hd, rfl⟩

/-- A gather of a context gathers each of its columns. -/
theorem get?_of_gather {offsets : List Nat} (h : ctx.gather offsets = .ok out) (a : Nat) :
    (ctx.get? a = none ∧ out.get? a = none) ∨
      ∃ c d, ctx.get? a = some c ∧ c.gather offsets = .ok d ∧ out.get? a = some d :=
  get?_of_mapColumns h a

theorem mem_tags {a : Nat} : a ∈ ctx.tags ↔ ∃ c, ctx.get? a = some c := by
  rw [tags, List.mem_filterMap]
  constructor
  · intro htag
    obtain ⟨⟨slot, i⟩, hmem, hi⟩ := htag
    obtain ⟨c, hc, rfl⟩ := Option.map_eq_some_iff.1 hi
    refine ⟨c, ?_⟩
    rw [get?, List.mem_zipIdx_iff_getElem?.1 hmem]
    exact hc
  · intro hcolumn
    obtain ⟨c, hc⟩ := hcolumn
    rw [get?, Option.join_eq_some_iff] at hc
    exact ⟨(some c, a), List.mem_zipIdx_iff_getElem?.2 hc, rfl⟩

theorem mem_columns {c : Column} : c ∈ ctx.columns ↔ ∃ a, ctx.get? a = some c := by
  rw [columns, List.mem_filterMap]
  constructor
  · intro hcolumn
    obtain ⟨slot, hmem, hc⟩ := hcolumn
    obtain ⟨a, ha⟩ := List.mem_iff_getElem?.1 hmem
    exact ⟨a, by rw [get?, ha]; exact hc⟩
  · intro hok
    obtain ⟨a, ha⟩ := hok
    rw [get?, Option.join_eq_some_iff] at ha
    exact ⟨some c, List.mem_of_getElem? ha, rfl⟩

/-- The count of rows is the size that all columns have. -/
theorem rowCount_eq {n a : Nat} {c : Column} (hc : ctx.get? a = some c)
    (hsize : ∀ (b : Nat) (d : Column), ctx.get? b = some d → d.size = n) : ctx.rowCount = n := by
  unfold rowCount
  cases hcolumns : ctx.columns with
  | nil =>
    have hmem : c ∈ ctx.columns := mem_columns.2 ⟨a, hc⟩
    rw [hcolumns] at hmem
    exact absurd hmem List.not_mem_nil
  | cons d ds =>
    have hmem : d ∈ ctx.columns := hcolumns ▸ List.mem_cons_self
    obtain ⟨b, hb⟩ := mem_columns.1 hmem
    exact hsize b d hb

end Context

end ColumnFlow
