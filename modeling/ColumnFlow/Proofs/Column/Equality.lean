import Mathlib.Data.List.Forall2
import ColumnFlow.Proofs.Column.Derived
import ColumnFlow.Proofs.Column.Parts

/-!
# Equality of value columns

Values are equal if they are the same, floats word for word. Columns of values are compared by their
cells, and cells of floats as numbers: a NaN equals nothing, and the two zeros are equal
(`Column.beq_exact`). Floats inside lists are values, and are compared as such.
-/

namespace ColumnFlow

open Rows

/-! ## Cells -/

namespace Value

/-- The value is a float that is not a number. -/
def isNaN : Value → Bool
  | float64 x => x.isNaN
  | _ => false

/-- The value is a float, one of the two zeros. -/
def isZero : Value → Bool
  | float64 x => x.magnitude == 0
  | _ => false

/-- The values are equal, or both are zeros, and they are no NaN. -/
def Matches (v w : Value) : Prop := v.isNaN = false ∧ (v = w ∨ v.isZero = true ∧ w.isZero = true)

theorem matches_self_iff {v : Value} : v.Matches v ↔ v.isNaN = false :=
  and_iff_left (.inl rfl)

/-- Values of other types than that of floats match if they are equal. -/
theorem matches_iff_eq {v w : Value} (h : v.elemType ≠ .float64) : v.Matches w ↔ v = w := by
  cases v <;> simp_all [Matches, isNaN, isZero, elemType]

end Value

theorem Float64.isNaN_of_magnitude {x : Float64} (h : x.magnitude = 0) : x.isNaN = false := by
  simp [isNaN, infinite, h]

theorem Float64.numEq_iff {a b : Float64} :
    a.numEq b = true ↔ (Value.float64 a).Matches (.float64 b) := by
  simp only [numEq, Value.Matches, Value.isNaN, Value.isZero, Value.float64.injEq,
    Bool.and_eq_true, Bool.or_eq_true, Bool.not_eq_true', beq_iff_eq]
  constructor
  · intro h
    obtain ⟨⟨ha, -⟩, hbits | hzeros⟩ := h
    · exact ⟨ha, .inl (congrArg mk hbits)⟩
    · exact ⟨ha, .inr hzeros⟩
  · intro h
    obtain ⟨ha, rfl | hzeros⟩ := h
    · exact ⟨⟨ha, ha⟩, .inl rfl⟩
    · exact ⟨⟨ha, isNaN_of_magnitude hzeros.2⟩, .inr hzeros⟩

namespace ScalarType

theorem sameCell_iff {t : ScalarType} {a b : t.Cell} :
    t.sameCell a b = true ↔ (t.toValue a).Matches (t.toValue b) := by
  cases t
  case float64 => exact Float64.numEq_iff
  all_goals simp [sameCell, toValue, Value.Matches, Value.isNaN, Value.isZero]

end ScalarType

namespace Storage

theorem sameCells_iff {t : ScalarType} {xs ys : List t.Cell} :
    beq.sameCells t xs ys = true ↔
      List.Forall₂ Value.Matches (xs.map t.toValue) (ys.map t.toValue) := by
  rw [List.forall₂_map_left_iff, List.forall₂_map_right_iff]
  induction xs generalizing ys with
  | nil => cases ys <;> simp [beq.sameCells]
  | cons x xs ih =>
    cases ys with
    | nil => simp [beq.sameCells]
    | cons y ys =>
      rw [List.forall₂_cons, ← ih, ← ScalarType.sameCell_iff]
      simp only [beq.sameCells, List.length_cons, List.zip_cons_cons, List.all_cons,
        Bool.and_eq_true, beq_iff_eq, Nat.add_right_cancel_iff]
      exact and_left_comm

theorem forall₂_matches_lists_iff {xs ys : List ListValue} :
    List.Forall₂ Value.Matches (xs.map ListValue.toValue) (ys.map ListValue.toValue) ↔
      xs = ys := by
  have hlist : (fun a b : ListValue => a.toValue.Matches b.toValue) = Eq :=
    funext fun a => funext fun b =>
      propext ((Value.matches_iff_eq ElemType.noConfusion).trans ListValue.toValue_inj)
  rw [List.forall₂_map_left_iff, List.forall₂_map_right_iff, hlist, List.forall₂_eq_eq_eq]

/-- Storage is compared by its types and cell by cell. -/
theorem beq_iff {s t : Storage} :
    (s == t) = true ↔ s.elemType = t.elemType ∧ s.itemType = t.itemType ∧
      List.Forall₂ Value.Matches s.values t.values := by
  rcases s with ⟨type, xs⟩ | ⟨itemType, xs⟩ <;> rcases t with ⟨type', ys⟩ | ⟨itemType', ys⟩
  · show (if h : type = type' then beq.sameCells type' (h ▸ xs) ys else false) = true ↔ _
    by_cases htype : type = type'
    · subst htype
      rw [dif_pos rfl, sameCells_iff]
      exact ⟨fun h => ⟨rfl, rfl, h⟩, fun h => h.2.2⟩
    · rw [dif_neg htype]
      exact iff_of_false Bool.false_ne_true fun h => htype (elemType_inj h.1)
  · exact iff_of_false Bool.false_ne_true fun h => elemType_scalars_ne_list h.1
  · exact iff_of_false Bool.false_ne_true fun h => elemType_scalars_ne_list h.1.symm
  · show (decide (itemType = itemType') && decide (xs = ys)) = true ↔ _
    rw [Bool.and_eq_true, decide_eq_true_iff, decide_eq_true_iff]
    exact (and_congr_right fun _ => forall₂_matches_lists_iff.symm).trans
      (and_iff_right rfl).symm

theorem elemType_of_mem_values {s : Storage} {v : Value} (h : v ∈ s.values) :
    v.elemType = s.elemType := by
  cases s with
  | scalars type cells =>
    obtain ⟨cell, -, rfl⟩ := List.mem_map.1 h
    exact ScalarType.elemType_toValue type cell
  | lists itemType cells =>
    obtain ⟨l, -, rfl⟩ := List.mem_map.1 h
    rfl

end Storage

/-! ## Columns -/

namespace Column

variable {c d : Column}

/-- The column holds values, with or without a bitmap. -/
def HoldsValues (c : Column) : Prop := c.kind = .value ∨ c.kind = .optionalValue

/-- The columns are equal but for their cells. -/
structure SameShape (c d : Column) : Prop where
  kind_eq : c.kind = d.kind
  elemType_eq : c.elemType = d.elemType
  itemType_eq : c.itemType = d.itemType
  size_eq : c.size = d.size
  validity_eq : c.validity? = d.validity?

/-- The cells of two columns match row by row. -/
theorem forall₂_cells_iff {R : Value → Value → Prop} :
    List.Forall₂ R c.cells d.cells ↔
      c.size = d.size ∧ ∀ i v w, c.get i = .ok v → d.get i = .ok w → R v w := by
  rw [List.forall₂_iff_get, ← length_cells, ← length_cells]
  refine and_congr_right fun _ => ?_
  simp only [get_eq_ok_iff]
  constructor
  · intro h i v w hv hw
    obtain ⟨hi, rfl⟩ := List.getElem?_eq_some_iff.1 hv
    obtain ⟨hj, rfl⟩ := List.getElem?_eq_some_iff.1 hw
    exact h i hi hj
  · intro h i hi hj
    exact h i _ _ (List.getElem?_eq_getElem hi) (List.getElem?_eq_getElem hj)

theorem beq_iff_forall₂ (hc : c.HoldsValues) :
    (c == d) = true ↔ c.kind = d.kind ∧ c.elemType = d.elemType ∧ c.itemType = d.itemType ∧
      c.validity? = d.validity? ∧ List.Forall₂ Value.Matches c.cells d.cells := by
  cases c <;> cases d
  case value.value c d =>
    refine (Storage.beq_iff (s := c.storage) (t := d.storage)).trans ?_
    exact ⟨fun h => ⟨rfl, h.1, h.2.1, rfl, h.2.2⟩, fun h => ⟨h.2.1, h.2.2.1, h.2.2.2.2⟩⟩
  case optionalValue.optionalValue c d =>
    show (c.values.storage == d.values.storage && decide (c.validity = d.validity)) = true ↔ _
    rw [Bool.and_eq_true, Storage.beq_iff, decide_eq_true_iff]
    constructor
    · intro h
      obtain ⟨⟨helem, hitem, hcells⟩, hvalidity⟩ := h
      exact ⟨rfl, helem, hitem, congrArg some hvalidity, hcells⟩
    · intro h
      obtain ⟨-, helem, hitem, hvalidity, hcells⟩ := h
      exact ⟨⟨helem, hitem, hcells⟩, Option.some.inj hvalidity⟩
  -- columns of other kinds hold no values, or are not of the same kind
  all_goals first
    | exact iff_of_false Bool.false_ne_true fun h => ColumnKind.noConfusion h.1
    | exact absurd hc (by simp [HoldsValues, kind])

theorem beq_iff (hc : c.HoldsValues) :
    (c == d) = true ↔
      SameShape c d ∧ ∀ i v w, c.get i = .ok v → d.get i = .ok w → v.Matches w := by
  rw [beq_iff_forall₂ hc, forall₂_cells_iff]
  constructor
  · intro h
    obtain ⟨hkind, helem, hitem, hvalidity, hsize, hrows⟩ := h
    exact ⟨⟨hkind, helem, hitem, hsize, hvalidity⟩, hrows⟩
  · intro h
    obtain ⟨hshape, hrows⟩ := h
    exact ⟨hshape.kind_eq, hshape.elemType_eq, hshape.itemType_eq, hshape.validity_eq,
      hshape.size_eq, hrows⟩

theorem beq_self_iff (hc : c.HoldsValues) :
    (c == c) = true ↔ ∀ i v, c.get i = .ok v → v.isNaN = false := by
  rw [beq_iff hc, and_iff_right ⟨rfl, rfl, rfl, rfl, rfl⟩]
  constructor
  · exact fun h i v hv => Value.matches_self_iff.1 (h i v v hv hv)
  · intro h i v w hv hw
    obtain rfl := Except.ok.inj (hv.symm.trans hw)
    exact Value.matches_self_iff.2 (h i v hv)

theorem elemType_of_get (hc : c.HoldsValues) {i : Nat} {v : Value} (h : c.get i = .ok v) :
    v.elemType = c.elemType := by
  have hmem : v ∈ c.cells := List.mem_of_getElem? (get_eq_ok_iff.1 h)
  cases c with
  | value c | optionalValue c => exact Storage.elemType_of_mem_values hmem
  | vertex c | edge c | path c => exact absurd hc (by simp [HoldsValues, kind])

/-- Where no cell is a float, cells match if they are equal. -/
theorem matches_iff_get_eq (hc : c.HoldsValues) (helem : c.elemType ≠ .float64)
    (hsize : c.size = d.size) :
    (∀ i v w, c.get i = .ok v → d.get i = .ok w → v.Matches w) ↔
      ∀ i < c.size, c.get i = d.get i := by
  have hmatches : ∀ {i v} (w : Value), c.get i = .ok v → (v.Matches w ↔ v = w) := fun w hv =>
    Value.matches_iff_eq (elemType_of_get hc hv ▸ helem)
  constructor
  · intro h i hi
    obtain ⟨v, hv⟩ := exists_get_iff.2 hi
    obtain ⟨w, hw⟩ := exists_get_iff.2 (hsize ▸ hi)
    rw [hv, hw, (hmatches w hv).1 (h i v w hv hw)]
  · intro h i v w hv hw
    have hi : i < c.size := exists_get_iff.1 ⟨v, hv⟩
    rw [hmatches w hv]
    exact Except.ok.inj (hv.symm.trans ((h i hi).trans hw))

/-- Equality of columns of values, exactly. A column equals itself unless a cell is a NaN, and equals
another column if the two are of one shape and their cells match row by row: no cell is a NaN, and
the two are equal or both are zeros. So it is equality of values for every type but that of floats:
a column then equals itself, and equal columns are those of one shape and of equal cells. -/
theorem beq_exact (hc : c.HoldsValues) :
    ((c == c) = true ↔ ∀ i v, c.get i = .ok v → v.isNaN = false) ∧
    (∀ d, (c == d) = true ↔ SameShape c d ∧
      ∀ i v w, c.get i = .ok v → d.get i = .ok w → v.Matches w) ∧
    (c.elemType ≠ .float64 → (c == c) = true ∧
      ∀ d, (c == d) = true ↔ SameShape c d ∧ ∀ i < c.size, c.get i = d.get i) := by
  refine ⟨beq_self_iff hc, fun d => beq_iff hc, fun helem => ?_⟩
  have hequal : ∀ d, (c == d) = true ↔ SameShape c d ∧ ∀ i < c.size, c.get i = d.get i :=
    fun d => (beq_iff hc).trans
      (and_congr_right fun hshape => matches_iff_get_eq hc helem hshape.size_eq)
  exact ⟨(hequal c).2 ⟨⟨rfl, rfl, rfl, rfl, rfl⟩, fun _ _ => rfl⟩, hequal⟩

/-- A column of one float. -/
def floatColumn (word : UInt64) : Column :=
  (Builder.value ⟨.scalars .float64 [⟨word⟩], none, ArenaBuilder.empty⟩).finish 0 none

theorem wellMade_floatColumn (word : UInt64) : (floatColumn word).WellMade := by
  have hnew : Builder.ofType .float64 false
      = .ok (.value (ValueBuilder.ofStorage (.scalars .float64 []) false)) := rfl
  have hb : (Builder.value (ValueBuilder.ofStorage (.scalars .float64 []) false)).Reachable
      fun v => v.isReserved = false := .fresh (Builder.fresh_of_ofType hnew)
  exact .finish (hb.pushValue (v := .float64 ⟨word⟩) rfl rfl) 0 none

/-- A column of one equals itself, and not that of minus one. -/
theorem beq_exact_ones :
    (floatColumn 0x3ff0000000000000 == floatColumn 0x3ff0000000000000) = true ∧
      (floatColumn 0x3ff0000000000000 == floatColumn 0xbff0000000000000) = false := by
  have hvalues : (floatColumn 0x3ff0000000000000).HoldsValues := .inl rfl
  obtain ⟨hself, hother, -⟩ := beq_exact hvalues
  rw [hself, ← Bool.not_eq_true, hother]
  constructor
  · intro i v hv
    have hmem := List.mem_of_getElem? (get_eq_ok_iff.1 hv)
    rw [List.mem_singleton.1 hmem]
    rfl
  · intro h
    rcases (h.2 0 _ _ rfl rfl).2 with hcells | hzeros
    · exact absurd hcells (by decide)
    · exact absurd hzeros.1 (by decide)

/-- A column of a NaN is not equal to itself, and columns of the two zeros are equal, although their
cells are different values. -/
theorem not_beq_nan_and_beq_zeros :
    ((floatColumn 0x7ff8000000000000).WellMade ∧
      (floatColumn 0x7ff8000000000000 == floatColumn 0x7ff8000000000000) = false) ∧
    (floatColumn 0).WellMade ∧ (floatColumn 0x8000000000000000).WellMade ∧
      (floatColumn 0 == floatColumn 0x8000000000000000) = true ∧
      (floatColumn 0).get 0 ≠ (floatColumn 0x8000000000000000).get 0 := by
  refine ⟨⟨wellMade_floatColumn _, rfl⟩, wellMade_floatColumn _, wellMade_floatColumn _, rfl, ?_⟩
  exact fun h => absurd (Except.ok.inj h) (by decide)

end Column

end ColumnFlow
