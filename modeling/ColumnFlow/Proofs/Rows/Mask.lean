import ColumnFlow.Rows.Lemmas

/-!
# Masks

Cells under a list of bits: a cell counts where its bit is set. This is what a column with absent
rows means, and what is read from it row by row (`mapM_zipIdx_eq_ok_iff`).
-/

namespace ColumnFlow.Rows

variable {α β : Type}

/-- A cell where it is present, nothing where it is not. -/
def keep (cell : α) (present : Bool) : Option α := if present then some cell else none

/-- The cells that are present. -/
def mask (cells : List α) (present : List Bool) : List (Option α) :=
  List.zipWith keep cells present

@[simp] theorem length_mask (cells : List α) (present : List Bool) :
    (mask cells present).length = min cells.length present.length := List.length_zipWith

theorem getElem?_mask (cells : List α) (present : List Bool) (i : Nat) :
    (mask cells present)[i]? = (cells[i]?.map keep).bind fun f => present[i]?.map f :=
  List.getElem?_zipWith'

theorem getElem?_mask_eq_some {cells : List α} {present : List Bool} {i : Nat} {row : Option α}
    (h : (mask cells present)[i]? = some row) :
    ∃ cell b, cells[i]? = some cell ∧ present[i]? = some b ∧ row = keep cell b := by
  rw [getElem?_mask] at h
  rcases hc : cells[i]? with _ | cell
  · rw [hc] at h
    cases h
  · rcases hb : present[i]? with _ | b
    · rw [hc, hb] at h
      cases h
    · rw [hc, hb] at h
      exact ⟨cell, b, rfl, rfl, (Option.some.inj h).symm⟩

theorem mask_concat {cells : List α} {present : List Bool}
    (h : present.length = cells.length) (cell : α) (bit : Bool) :
    mask (cells ++ [cell]) (present ++ [bit]) = mask cells present ++ [keep cell bit] :=
  List.zipWith_append h.symm

theorem mask_replicate_true (cells : List α) :
    mask cells (List.replicate cells.length true) = cells.map some := by
  induction cells with
  | nil => rfl
  | cons cell cells ih =>
    rw [List.length_cons, List.replicate_succ]
    exact congrArg (some cell :: ·) ih

theorem keep_eq_keep_iff {a b : α} {p q : Bool} :
    keep a p = keep b q ↔ p = q ∧ (p = true → a = b) := by
  cases p <;> cases q <;> simp [keep]

theorem map_present_eq {present : Nat → Except Fault Bool} {bits : List Bool} {n : Nat}
    (hlen : bits.length = n) (h : ∀ (i : Nat) (b : Bool), bits[i]? = some b → present i = .ok b) :
    (List.range' 0 n).map present = bits.map .ok := by
  apply List.ext_getElem?
  intro i
  rw [List.getElem?_map, List.getElem?_map, ← List.range_eq_range', ← hlen]
  by_cases hi : i < bits.length
  · rw [List.getElem?_range hi, List.getElem?_eq_getElem hi]
    exact congrArg some (h i _ (List.getElem?_eq_getElem hi))
  · rw [List.getElem?_eq_none (by rw [List.length_range]; omega), List.getElem?_eq_none (by omega)]
    rfl

/-- Reading each cell with the presence of its row: a row that can be read is what its bit says. -/
theorem mapM_zipIdx_eq_ok_iff {present : Nat → Except Fault Bool} {f : α × Nat → β}
    {cells : List α} {out : List (Option β)} {n : Nat} :
    ((cells.zipIdx n).mapM fun cell => do
        return if ← present cell.2 then some (f cell) else none) = .ok out
      ↔ ∃ bits : List Bool, (List.range' n cells.length).map present = bits.map .ok ∧
          out = mask ((cells.zipIdx n).map f) bits := by
  -- on the cells, for every row that the first one may have: each cell reads one bit
  induction cells generalizing n out with
  | nil =>
    rw [List.zipIdx_nil, List.mapM_nil]
    constructor
    · intro h
      cases h
      exact ⟨[], rfl, rfl⟩
    · intro hbits
      obtain ⟨bits, -, hout⟩ := hbits
      rw [hout]
      rfl
  | cons cell cells ih =>
    rw [List.zipIdx_cons, List.mapM_cons, List.length_cons, List.range'_succ]
    constructor
    · intro h
      obtain ⟨_, hrow, h⟩ := bind_eq_ok_iff.1 h
      obtain ⟨b, hb, ⟨⟩⟩ := bind_eq_ok_iff.1 hrow
      obtain ⟨rows, hrows, ⟨⟩⟩ := bind_eq_ok_iff.1 h
      obtain ⟨bits, hbits, rfl⟩ := ih.1 hrows
      exact ⟨b :: bits, by rw [List.map_cons, List.map_cons, hbits, hb], rfl⟩
    · rintro ⟨bits, hbits, rfl⟩
      cases bits with
      | nil => exact absurd hbits (by simp)
      | cons b bits =>
        obtain ⟨hb, hbits⟩ := List.cons.inj hbits
        refine bind_eq_ok_iff.2 ⟨keep (f (cell, n)) b, bind_eq_ok_iff.2 ⟨b, hb, rfl⟩, ?_⟩
        exact bind_eq_ok_iff.2 ⟨_, ih.2 ⟨bits, hbits, rfl⟩, rfl⟩

end ColumnFlow.Rows
