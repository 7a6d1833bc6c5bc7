import ColumnFlow.Proofs.Column.Ranking
import ColumnFlow.Proofs.Rows.Selection

/-!
# Sorted rows

Values of one scalar type have an order that does not depend on how a column stores them
(`Value.precedes`). The best rows of a column are the first ones of its rows when these are sorted by
their values and equal values keep the order of their rows, in both directions; a column that holds
other values, or whose rows may be absent, is not ranked (`Column.best_exact`). A heap that is never
larger than the limit selects the same rows (`Column.best_eq_some_iff_selects`).
-/

namespace ColumnFlow

open Rows

/-! ## The order of values -/

/-- The total order of floats by sign and word. Those with the sign bit come first, the largest word
before the others; the rest stand in the order of their words. -/
def Float64.totalLess (a b : Float64) : Bool :=
  if a.negative then !b.negative || b.bits < a.bits else !b.negative && a.bits < b.bits

/-- A word is its sign and its magnitude. -/
theorem Float64.bits_eq (x : Float64) :
    x.bits.toNat = x.magnitude + if x.negative then signBit else 0 := by
  have hlt := x.bits.toNat_lt
  simp only [magnitude, negative_iff, signBit]
  split <;> omega

theorem Float64.totalLess_iff {a b : Float64} : a.totalLess b = true ↔ a.rank < b.rank := by
  have ha := a.bits_eq
  have hb := b.bits_eq
  unfold totalLess rank
  -- of two negative floats the one with the larger magnitude is the smaller
  cases hna : a.negative <;> cases hnb : b.negative <;>
    simp [hna, hnb, UInt64.lt_iff_toNat_lt] at ha hb ⊢ <;> omega

/-- Texts are compared byte by byte, and a text comes behind its beginnings. -/
theorem Text.compareBytes_eq_lt_iff {a b : String} :
    compareBytes a b = .lt ↔ bytes a < bytes b := by
  unfold compareBytes
  generalize bytes a = as
  generalize bytes b = bs
  induction as generalizing bs with
  | nil => cases bs <;> simp [compare, List.compareLex]
  | cons x as ih =>
    cases bs with
    | nil => simp [compare, List.compareLex]
    | cons y bs =>
      show List.compareLex compare (x :: as) (y :: bs) = .lt ↔ _
      rw [List.compareLex_cons_cons, Ordering.then_eq_lt, List.cons_lt_cons_iff,
        Std.compare_eq_lt, Std.compare_eq_iff_eq]
      exact or_congr_right (and_congr_right fun _ => ih bs)

/-- Whether a value is smaller than another one of its type. Values of different types, and values
that are no scalars, are not compared. -/
def Value.precedes : Value → Value → Bool
  | bool a, bool b => !a && b
  | int32 a, int32 b => a < b
  | int64 a, int64 b => a < b
  | uint64 a, uint64 b => a < b
  | float64 a, float64 b => a.totalLess b
  | date a, date b => a.millis < b.millis
  | day a, day b => a.packed < b.packed
  | string a, string b => Text.bytes a < Text.bytes b
  | _, _ => false

/-- Whether a value may stand before another in a direction: equal values may in both. -/
def Value.inOrder (ascending : Bool) (a b : Value) : Bool :=
  if ascending then !b.precedes a else !a.precedes b

namespace ScalarType

/-- Cells are compared as their values. -/
theorem precedes_toValue_iff {t : ScalarType} {a b : t.Cell} :
    (t.toValue a).precedes (t.toValue b) = true ↔ t.compareCells a b = .lt := by
  cases t with
  | bool => cases a <;> cases b <;> decide
  | int32 | int64 | uint64 => exact decide_eq_true_iff.trans Std.compare_eq_lt.symm
  | float64 => exact Float64.totalLess_iff.trans Std.compare_eq_lt.symm
  | date => exact decide_eq_true_iff.trans Std.compare_eq_lt.symm
  | day => exact decide_eq_true_iff.trans Std.compare_eq_lt.symm
  | string => exact decide_eq_true_iff.trans Text.compareBytes_eq_lt_iff.symm

theorem inOrder_toValue {t : ScalarType} (ascending : Bool) (a b : t.Cell) :
    (t.toValue a).inOrder ascending (t.toValue b)
      = (directed t.compareCells ascending a b).isLE := by
  -- what is not greater is smaller or equal
  have hnot : ∀ x y : t.Cell,
      (!(t.toValue y).precedes (t.toValue x)) = (t.compareCells x y).isLE := by
    intro x y
    have hswap : t.compareCells y x = (t.compareCells x y).swap := Std.OrientedCmp.eq_swap
    rw [Bool.eq_iff_iff, Bool.not_eq_true', ← Bool.not_eq_true, precedes_toValue_iff, hswap]
    cases t.compareCells x y <;> decide
  cases ascending
  · exact hnot b a
  · exact hnot a b

end ScalarType

/-! ## Ranked columns -/

/-- The types with an order. -/
def ElemType.orderedTypes : List ElemType :=
  [.bool, .int32, .int64, .uint64, .float64, .date, .day, .string]

namespace Column

variable {c : Column} {ascending : Bool}

/-- A column of values of a type with an order, none of which may be absent. -/
def Ordered (c : Column) : Prop := c.kind = .value ∧ c.elemType ∈ ElemType.orderedTypes

instance (c : Column) : Decidable c.Ordered := inferInstanceAs (Decidable (_ ∧ _))

/-- The rows sorted by their values in a direction; rows of equal values keep their order. -/
def sortedRows (c : Column) (ascending : Bool) : List Nat :=
  (c.cells.zipIdx.mergeSort fun a b => a.1.inOrder ascending b.1).map (·.2)

/-- A row comes before another: by its value in the direction, or by its place if both hold the same
value. -/
def Before (c : Column) (ascending : Bool) (i j : Nat) : Prop :=
  ∃ v w, c.get i = .ok v ∧ c.get j = .ok w ∧
    ((if ascending then v.precedes w else w.precedes v) = true ∨ v = w ∧ i < j)

theorem ordered_iff : c.Ordered ↔ ∃ t cells arena, c = value ⟨.scalars t cells, arena⟩ := by
  constructor
  · intro h
    obtain ⟨hkind, htype⟩ := h
    cases c with
    | value c =>
      obtain ⟨⟨t, cells⟩ | ⟨itemType, cells⟩, arena⟩ := c
      · exact ⟨t, cells, arena, rfl⟩
      · exact absurd (show ElemType.list ∈ ElemType.orderedTypes from htype) (by decide)
    | vertex c | edge c | optionalValue c | path c => cases hkind
  · intro h
    obtain ⟨t, cells, arena, rfl⟩ := h
    refine ⟨rfl, ?_⟩
    show t.elemType ∈ ElemType.orderedTypes
    cases t <;> decide

theorem best_eq_none (h : ¬ c.Ordered) (limit : Nat) : c.best ascending limit = none := by
  cases c with
  | value c =>
    obtain ⟨⟨t, cells⟩ | ⟨itemType, cells⟩, arena⟩ := c
    · exact absurd (ordered_iff.2 ⟨t, cells, arena, rfl⟩) h
    · rfl
  | vertex c | edge c | optionalValue c | path c => rfl

theorem sortedRows_perm (c : Column) (ascending : Bool) :
    (c.sortedRows ascending).Perm (List.range c.size) := by
  have hrows : c.cells.zipIdx.map (·.2) = List.range c.size := by
    rw [List.zipIdx_map_snd, length_cells, List.range_eq_range']
  rw [← hrows]
  exact (List.mergeSort_perm _ _).map _

section

variable {t : ScalarType} {cells : List t.Cell} {arena : Option Arena}

/-- Sorting by values is sorting by cells. -/
theorem sortedRows_scalars : (value ⟨.scalars t cells, arena⟩).sortedRows ascending
    = (cells.zipIdx.mergeSort (cellLE t.compareCells ascending)).map (·.2) := by
  show (((cells.map t.toValue).zipIdx).mergeSort _).map _ = _
  rw [List.zipIdx_map, ← List.map_mergeSort (r := cellLE t.compareCells ascending), List.map_map]
  · rfl
  · intro a _ b _
    exact (ScalarType.inOrder_toValue ascending a.1 b.1).symm

/-- Rows that stand in the order of rows are ranked by their values. -/
theorem before_of_inFront {a b : t.Cell × Nat} (ha : a ∈ cells.zipIdx) (hb : b ∈ cells.zipIdx)
    (hne : a.2 ≠ b.2) (h : InFront t.compareCells ascending a b) :
    (value ⟨.scalars t cells, arena⟩).Before ascending a.2 b.2 := by
  have hget : ∀ r ∈ cells.zipIdx, (value ⟨.scalars t cells, arena⟩).get r.2 = .ok (t.toValue r.1) := by
    intro r hr
    rw [get_eq_ok_iff]
    show (cells.map t.toValue)[r.2]? = _
    rw [List.getElem?_map, List.mem_zipIdx_iff_getElem?.1 hr]
    rfl
  refine ⟨_, _, hget a ha, hget b hb, ?_⟩
  have horder : ((directed t.compareCells ascending a.1 b.1).then (compare a.2 b.2)).isLE = true := h
  cases hcells : directed t.compareCells ascending a.1 b.1 with
  | lt =>
    left
    cases ascending
    · exact ScalarType.precedes_toValue_iff.2 hcells
    · exact ScalarType.precedes_toValue_iff.2 hcells
  | eq =>
    right
    rw [hcells] at horder
    have hle : a.2 ≤ b.2 := Nat.isLE_compare.1 horder
    exact ⟨congrArg _ (Std.LawfulEqCmp.eq_of_compare hcells), by omega⟩
  | gt =>
    rw [hcells] at horder
    cases horder

theorem pairwise_sortedRows_scalars :
    ((value ⟨.scalars t cells, arena⟩).sortedRows ascending).Pairwise
      ((value ⟨.scalars t cells, arena⟩).Before ascending) := by
  have hnodup : ((value ⟨.scalars t cells, arena⟩).sortedRows ascending).Nodup :=
    (sortedRows_perm _ _).nodup_iff.2 List.nodup_range
  rw [sortedRows_scalars] at hnodup ⊢
  rw [List.pairwise_map]
  refine ((pairwise_mergeSort_zipIdx cells).and (List.pairwise_map.1 hnodup)).imp_of_mem ?_
  intro a b ha hb hab
  exact before_of_inFront (List.mem_mergeSort.1 ha) (List.mem_mergeSort.1 hb) hab.2 hab.1

end

/-- Columns of values of a type with an order, and the rows that a heap holds of theirs in the end,
best first. A heap without room is never asked. -/
inductive Selects (ascending : Bool) : Nat → Column → List Nat → Prop where
  | noRoom {t : ScalarType} (cells : List t.Cell) (arena : Option Arena) :
      Selects ascending 0 (value ⟨.scalars t cells, arena⟩) []
  | heap {limit : Nat} {t : ScalarType} {cells : List t.Cell} {heap sorted : List (t.Cell × Nat)}
      (hlimit : 0 < limit) (h : Held t.compareCells ascending limit cells.zipIdx heap)
      (hperm : sorted.Perm heap) (hsorted : sorted.Pairwise (InFront t.compareCells ascending))
      (arena : Option Arena) :
      Selects ascending limit (value ⟨.scalars t cells, arena⟩) (sorted.map (·.2))

/-- A column tells the rows that a heap no larger than the limit selects, however the heap arranges
them. -/
theorem best_eq_some_iff_selects {limit : Nat} {rows : List Nat} :
    c.best ascending limit = some rows ↔ Selects ascending limit c rows := by
  have hbest : ∀ (t : ScalarType) (cells : List t.Cell) (arena : Option Arena),
      (value ⟨.scalars t cells, arena⟩).best ascending limit
        = some (Rows.best t.compareCells ascending limit cells) := fun _ _ _ => rfl
  constructor
  · intro h
    have hordered : c.Ordered := by
      by_contra hnot
      cases h.symm.trans (best_eq_none hnot limit)
    obtain ⟨t, cells, arena, rfl⟩ := ordered_iff.1 hordered
    obtain rfl := Option.some.inj (h.symm.trans (hbest t cells arena))
    rcases Nat.eq_zero_or_pos limit with rfl | hlimit
    · rw [best_eq_take, List.take_zero]
      exact .noRoom cells arena
    · obtain ⟨heap, hheld⟩ : ∃ heap, Held t.compareCells ascending limit cells.zipIdx heap :=
        exists_held hlimit _
      have hperm : (ranked t.compareCells ascending heap).Perm heap := ranked_perm heap
      have hsorted : (ranked t.compareCells ascending heap).Pairwise
          (InFront t.compareCells ascending) := ranked_sorted heap
      rw [← best_of_held hheld hperm hsorted]
      exact .heap hlimit hheld hperm hsorted arena
  · intro h
    cases h with
    | @noRoom t cells arena => rw [hbest, best_eq_take, List.take_zero]
    | heap hlimit hheld hperm hsorted arena => rw [hbest, best_of_held hheld hperm hsorted]

/-- A column of values of a type with an order tells as many of its rows as are asked for and there
are, in the order of a stable sort by value. All rows of the column are in that sort, each of them
before those with worse values, and before the later ones with the same. Other columns tell none. -/
theorem best_exact (c : Column) (ascending : Bool) (limit : Nat) :
    c.best ascending limit
        = (if c.Ordered then some ((c.sortedRows ascending).take limit) else none) ∧
      (c.sortedRows ascending).Perm (List.range c.size) ∧
      (c.Ordered → (c.sortedRows ascending).Pairwise (c.Before ascending)) := by
  refine ⟨?_, sortedRows_perm c ascending, fun h => ?_⟩
  · split
    · next h =>
      obtain ⟨t, cells, arena, rfl⟩ := ordered_iff.1 h
      rw [sortedRows_scalars, ← best_eq_mergeSort]
      rfl
    · next h => exact best_eq_none h limit
  · obtain ⟨t, cells, arena, rfl⟩ := ordered_iff.1 h
    exact pairwise_sortedRows_scalars

/-- A NaN and zeros of both signs. -/
def zerosColumn : Column :=
  value ⟨.scalars .float64 [⟨0x7ff8000000000000⟩, ⟨0⟩, ⟨0x8000000000000000⟩, ⟨0⟩], none⟩

/-- The negative zero is the smallest, and of the two equal zeros the first comes first. -/
theorem best_exact_zerosColumn :
    zerosColumn.Ordered ∧ zerosColumn.best true 3 = some [2, 1, 3] ∧
      zerosColumn.Before true 1 3 := by
  have hordered : zerosColumn.Ordered := by decide
  have hthree : zerosColumn.best true 3 = some [2, 1, 3] := by decide
  obtain ⟨hbest, -, hsorted⟩ := best_exact zerosColumn true 3
  have hrows := (hsorted hordered).sublist (List.take_sublist 3 _)
  rw [if_pos hordered, hthree] at hbest
  rw [← Option.some.inj hbest] at hrows
  refine ⟨hordered, hthree, ?_⟩
  exact (List.pairwise_cons.1 (List.pairwise_cons.1 hrows).2).1 3 List.mem_cons_self

end Column

end ColumnFlow
