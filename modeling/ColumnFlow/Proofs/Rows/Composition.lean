import ColumnFlow.Proofs.Rows.Gather

/-!
# Gathers one after the other

Cells that are gathered twice are gathered once, by offsets that go through both gathers
(`gatherOptional_through`). A gather by all offsets in order changes nothing, and cells that are put
together can be gathered apart (`gather_append`).
-/

namespace ColumnFlow.Rows

variable {α : Type}

/-- The offsets of two gathers, one after the other: a row has no source if the second gather gives
it none, or names a row to which the first one gives none. -/
def through (first second : List (Option Nat)) : List (Option Nat) :=
  second.map fun o => o.bind fun i => first[i]?.join

/-- A gather is an optional one in which every row has a source. -/
theorem gatherOptional_map_some (p : α) (cells : List α) (offsets : List Nat) :
    gatherOptional p cells (offsets.map some) = gather cells offsets :=
  List.mapM_map

/-! ## Two gathers -/

/-- The cells of the first gather all have sources that can be read. -/
theorem sourceCell_of_gatherOptional {p : α} {cells xs : List α} {first : List (Option Nat)}
    (h : gatherOptional p cells first = .ok xs) {i : Nat} (hi : i < xs.length) :
    sourceCell p cells first[i]?.join = xs[i]? := by
  have hlt : i < first.length := by rwa [← length_of_gatherOptional h]
  have ho := List.getElem?_eq_getElem hlt
  obtain ⟨a, ha, hx⟩ := getElem?_of_gatherOptional h ho
  rw [ho, hx, ← ha]
  rfl

theorem sourcesInRange_of_gatherOptional {p : α} {cells xs : List α} {offsets : List (Option Nat)}
    (h : gatherOptional p cells offsets = .ok xs) : SourcesInRange cells.length offsets :=
  exists_gatherOptional_iff.1 ⟨xs, h⟩

/-- A gather of gathered cells is one gather of the cells. -/
theorem gatherOptional_through {p : α} {cells xs ys : List α} {first second : List (Option Nat)}
    (h : gatherOptional p cells first = .ok xs) (h' : gatherOptional p xs second = .ok ys) :
    gatherOptional p cells (through first second) = .ok ys := by
  have hi := sourcesInRange_of_gatherOptional h'
  rw [gatherOptional_eq_ok_iff] at h' ⊢
  rw [← h', through, List.map_map]
  apply List.map_congr_left
  intro o ho
  cases o with
  | none => rfl
  | some i => exact sourceCell_of_gatherOptional h (hi i ho)

/-- Without rows that have no source, the offsets of the first gather are gathered themselves. -/
theorem through_map_some {first second offsets : List Nat} (h : gather first second = .ok offsets) :
    through (first.map some) (second.map some) = offsets.map some := by
  rw [gather_eq_ok_iff] at h
  rw [through, List.map_map, ← h]
  apply List.map_congr_left
  intro i _
  show (first.map some)[i]?.join = first[i]?
  rw [List.getElem?_map]
  cases first[i]? <;> rfl

/-! ## All cells, and cells put together -/

/-- A gather of all cells in order. -/
theorem gather_range (cells : List α) : gather cells (List.range cells.length) = .ok cells := by
  rw [gather_eq_ok_iff]
  apply List.ext_getElem?
  intro i
  rw [List.getElem?_map, List.getElem?_map]
  by_cases hi : i < cells.length
  · rw [List.getElem?_range hi, List.getElem?_eq_getElem hi]
    exact congrArg some (List.getElem?_eq_getElem hi)
  · rw [List.getElem?_eq_none (by rw [List.length_range]; omega),
      List.getElem?_eq_none (by omega)]
    rfl

/-- The offsets of two sequences of which the first has `n` rows, for both put together. -/
def besides (n : Nat) (first second : List Nat) : List Nat := first ++ second.map (n + ·)

theorem inRange_besides {m n : Nat} {first second : List Nat} (h : InRange m first)
    (h' : InRange n second) : InRange (m + n) (besides m first second) := by
  intro i hi
  rcases List.mem_append.1 hi with hi | hi
  · have := h i hi
    omega
  · obtain ⟨j, hj, rfl⟩ := List.mem_map.1 hi
    have := h' j hj
    omega

theorem gather_append {xs xs' ys ys' : List α} {first second : List Nat}
    (h : gather xs first = .ok xs') (h' : gather ys second = .ok ys') :
    gather (xs ++ ys) (besides xs.length first second) = .ok (xs' ++ ys') := by
  have hi : InRange xs.length first := exists_gather_iff.1 ⟨xs', h⟩
  rw [gather_eq_ok_iff] at h h' ⊢
  rw [besides, List.map_append, List.map_append, ← h, ← h', List.map_map]
  congr 1
  · apply List.map_congr_left
    intro i hmem
    exact List.getElem?_append_left (hi i hmem)
  · apply List.map_congr_left
    intro i _
    show (xs ++ ys)[xs.length + i]? = ys[i]?
    rw [List.getElem?_append_right (Nat.le_add_right _ _), Nat.add_sub_cancel_left]

end ColumnFlow.Rows
