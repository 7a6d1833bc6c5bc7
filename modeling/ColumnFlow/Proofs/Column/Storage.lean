import ColumnFlow.Column.Storage
import ColumnFlow.Proofs.Rows.Gather
import ColumnFlow.Proofs.Rows.Pattern

/-!
# The values in storage

Storage means the list of its values. Gathering and appending act on this list, and the numbers of
the cells have the pattern of the values (`Storage.samePattern_signatures`).
-/

namespace ColumnFlow

open Rows

/-- The number of 64-bit words. -/
def wordCount : Nat := 18446744073709551616

namespace ScalarType

theorem toValue_inj {t : ScalarType} {a b : t.Cell} (h : t.toValue a = t.toValue b) : a = b := by
  cases t <;> simpa [toValue] using h

/-- The word of a cell; texts have none. -/
def word : (t : ScalarType) → t.Cell → Nat
  | bool, c => c.toNat
  | int32, c => c.toUInt32.toNat
  | int64, c => c.toUInt64.toNat
  | uint64, c => c.toNat
  | float64, c => c.bits.toNat
  | date, c => c.millis.toUInt64.toNat
  | day, c => c.packed.toNat
  | string, _ => 0

/-- Cells that fit a word are told apart by it. -/
theorem word_inj {t : ScalarType} (ht : t ≠ .string) {a b : t.Cell} (h : t.word a = t.word b) :
    a = b := by
  cases t with
  | bool => cases a <;> cases b <;> first | rfl | cases h
  | int32 => exact congrArg Int32.ofUInt32 (UInt32.toNat_inj.1 h)
  | int64 => exact congrArg Int64.ofUInt64 (UInt64.toNat_inj.1 h)
  | uint64 => exact UInt64.toNat_inj.1 h
  | float64 => exact congrArg Float64.mk (UInt64.toNat_inj.1 h)
  | date => exact congrArg (fun w => Date.mk (Int64.ofUInt64 w)) (UInt64.toNat_inj.1 h)
  | day => exact congrArg Day.mk (UInt32.toNat_inj.1 h)
  | string => exact absurd rfl ht

theorem word_lt (t : ScalarType) (c : t.Cell) : t.word c < wordCount := by
  cases t with
  | bool => cases c <;> decide
  | int32 => exact Nat.lt_trans c.toUInt32.toNat_lt (by decide)
  | int64 => exact c.toUInt64.toNat_lt
  | uint64 => exact c.toNat_lt
  | float64 => exact c.bits.toNat_lt
  | date => exact c.millis.toUInt64.toNat_lt
  | day => exact Nat.lt_trans c.packed.toNat_lt (by decide)
  | string => exact (by decide : 0 < wordCount)

/-- A cell that fits a word has the same number in every column. -/
theorem signatures_eq_map_word {t : ScalarType} (ht : t ≠ .string) (cells : List t.Cell) :
    t.signatures cells = cells.map t.word := by
  cases t <;> first | rfl | exact absurd rfl ht

theorem samePattern_signatures (t : ScalarType) (cells : List t.Cell) :
    SamePattern (t.signatures cells) cells := by
  by_cases ht : t = .string
  · subst ht
    exact samePattern_ordinals cells
  · rw [signatures_eq_map_word ht]
    exact (SamePattern.map_right (fun a b h => word_inj ht h) cells).symm

theorem lt_wordCount_of_mem_signatures {t : ScalarType} {cells : List t.Cell}
    (hsize : cells.length ≤ wordCount) {n : Nat} (hn : n ∈ t.signatures cells) : n < wordCount := by
  by_cases ht : t = .string
  · subst ht
    exact Nat.lt_of_lt_of_le (lt_length_of_mem_ordinals hn) hsize
  · rw [signatures_eq_map_word ht] at hn
    obtain ⟨c, -, rfl⟩ := List.mem_map.1 hn
    exact t.word_lt c

end ScalarType

namespace Storage

variable {s t u : Storage}

/-- The values of the cells. -/
def values : Storage → List Value
  | scalars t cells => cells.map t.toValue
  | lists _ cells => cells.map ListValue.toValue

/-- The value of the cell of an absent row. -/
def placeholder : Storage → Value
  | scalars t _ => t.toValue t.placeholder
  | lists itemType _ => (ListValue.empty itemType).toValue

@[simp] theorem length_values (s : Storage) : s.values.length = s.size := by
  cases s <;> exact List.length_map _

theorem get_eq_ok_iff {i : Nat} {v : Value} : s.get i = .ok v ↔ s.values[i]? = some v := by
  cases s with
  | scalars t cells =>
    rw [get, map_eq_ok_iff, values, List.getElem?_map, Option.map_eq_some_iff]
    exact exists_congr fun cell => and_congr_left fun _ => fetch_eq_ok_iff
  | lists itemType cells =>
    rw [get, map_eq_ok_iff, values, List.getElem?_map, Option.map_eq_some_iff]
    exact exists_congr fun cell => and_congr_left fun _ => fetch_eq_ok_iff

theorem elemType_inj {s t : ScalarType} (h : s.elemType = t.elemType) : s = t := by
  cases s <;> cases t <;> first | rfl | cases h

theorem elemType_scalars_ne_list {type : ScalarType} {cells : List type.Cell} :
    (scalars type cells).elemType ≠ .list := by
  cases type <;> exact ElemType.noConfusion

/-- Types and values tell all of storage. -/
theorem ext (helem : s.elemType = t.elemType) (hitem : s.itemType = t.itemType)
    (hvalues : s.values = t.values) : s = t := by
  rcases s with ⟨type, xs⟩ | ⟨itemType, xs⟩ <;> rcases t with ⟨type', ys⟩ | ⟨itemType', ys⟩
  · obtain rfl := elemType_inj helem
    exact congrArg _ ((List.map_inj_right fun _ _ => ScalarType.toValue_inj).1 hvalues)
  · exact absurd helem elemType_scalars_ne_list
  · exact absurd helem.symm elemType_scalars_ne_list
  · obtain rfl : itemType = itemType' := hitem
    exact congrArg _ ((List.map_inj_right fun _ _ => ListValue.toValue_inj.1).1 hvalues)

/-! ## Gathering -/

theorem values_of_gather {offsets : List Nat} (h : s.gather offsets = .ok t) :
    Rows.gather s.values offsets = .ok t.values := by
  cases s with
  | scalars type cells =>
    obtain ⟨out, hout, rfl⟩ := map_eq_ok_iff.1 h
    exact gather_map _ hout
  | lists itemType cells =>
    obtain ⟨out, hout, rfl⟩ := map_eq_ok_iff.1 h
    exact gather_map _ hout

theorem exists_gather {offsets : List Nat} (h : InRange s.size offsets) :
    ∃ t, s.gather offsets = .ok t := by
  cases s with
  | scalars type cells =>
    obtain ⟨out, hout⟩ := exists_gather_iff.2 h
    exact ⟨_, map_eq_ok_iff.2 ⟨out, hout, rfl⟩⟩
  | lists itemType cells =>
    obtain ⟨out, hout⟩ := exists_gather_iff.2 h
    exact ⟨_, map_eq_ok_iff.2 ⟨out, hout, rfl⟩⟩

theorem values_of_gatherOptional {offsets : List (Option Nat)}
    (h : s.gatherOptional offsets = .ok t) :
    Rows.gatherOptional s.placeholder s.values offsets = .ok t.values := by
  cases s with
  | scalars type cells =>
    obtain ⟨out, hout, rfl⟩ := map_eq_ok_iff.1 h
    exact gatherOptional_map type.toValue hout
  | lists itemType cells =>
    obtain ⟨out, hout, rfl⟩ := map_eq_ok_iff.1 h
    exact gatherOptional_map ListValue.toValue hout

theorem exists_gatherOptional {offsets : List (Option Nat)} (h : SourcesInRange s.size offsets) :
    ∃ t, s.gatherOptional offsets = .ok t := by
  cases s with
  | scalars type cells =>
    obtain ⟨out, hout⟩ := exists_gatherOptional_iff.2 h
    exact ⟨_, map_eq_ok_iff.2 ⟨out, hout, rfl⟩⟩
  | lists itemType cells =>
    obtain ⟨out, hout⟩ := exists_gatherOptional_iff.2 h
    exact ⟨_, map_eq_ok_iff.2 ⟨out, hout, rfl⟩⟩

/-- Gathers keep the types, and so the placeholder. -/
structure SameTypes (s t : Storage) : Prop where
  elemType_eq : t.elemType = s.elemType
  itemType_eq : t.itemType = s.itemType
  placeholder_eq : t.placeholder = s.placeholder

theorem sameTypes_of_gather {offsets : List Nat} (h : s.gather offsets = .ok t) :
    SameTypes s t := by
  cases s with
  | scalars | lists =>
    obtain ⟨out, -, rfl⟩ := map_eq_ok_iff.1 h
    exact ⟨rfl, rfl, rfl⟩

theorem sameTypes_of_gatherOptional {offsets : List (Option Nat)}
    (h : s.gatherOptional offsets = .ok t) : SameTypes s t := by
  cases s with
  | scalars | lists =>
    obtain ⟨out, -, rfl⟩ := map_eq_ok_iff.1 h
    exact ⟨rfl, rfl, rfl⟩

/-! ## Appending -/

/-- Both item types are known, and they differ. -/
def ItemTypesClash (known incoming : ElemType) : Prop :=
  known ≠ .null ∧ incoming ≠ .null ∧ known ≠ incoming

theorem exists_mergeItemTypes_iff {known incoming : ElemType} :
    (∃ type, mergeItemTypes known incoming = .ok type) ↔ ¬ ItemTypesClash known incoming := by
  unfold mergeItemTypes ItemTypesClash
  -- a type that is not known clashes with none
  by_cases hknown : known = .null
  · simp [hknown]
  · rw [if_neg hknown]
    split
    · next h =>
      refine iff_of_true ⟨known, rfl⟩ fun hclash => ?_
      rcases h with h | h
      · exact hclash.2.1 h
      · exact hclash.2.2 h.symm
    · next h =>
      refine iff_of_false (by simp) (not_not_intro ⟨hknown, fun h' => h (.inl h'), fun h' => ?_⟩)
      exact h (.inr h'.symm)

/-- Cells of one scalar type go behind each other, and lists do if their item types agree. -/
inductive Appended : Storage → Storage → Storage → Prop where
  | scalars (type : ScalarType) (xs ys : List type.Cell) :
      Appended (scalars type xs) (scalars type ys) (scalars type (xs ++ ys))
  | lists {known incoming merged : ElemType} (xs ys : List ListValue)
      (h : mergeItemTypes known incoming = .ok merged) :
      Appended (lists known xs) (lists incoming ys) (lists merged (xs ++ ys))

theorem appended_of_append (h : s.append t = .ok u) : Appended s t u := by
  -- cells of two types are refused, so the cases left are one scalar type and lists
  rcases s with ⟨type, xs⟩ | ⟨known, xs⟩ <;> rcases t with ⟨type', ys⟩ | ⟨incoming, ys⟩
  · by_cases htype : type = type'
    · subst htype
      rw [append, dif_pos rfl] at h
      cases h
      exact .scalars type xs ys
    · rw [append, dif_neg htype] at h
      cases h
  · cases h
  · cases h
  · obtain ⟨merged, hmerge, ⟨⟩⟩ := bind_eq_ok_iff.1 h
    exact .lists xs ys hmerge

theorem values_of_append (h : s.append t = .ok u) : u.values = s.values ++ t.values := by
  cases appended_of_append h with
  | scalars type xs ys => exact List.map_append
  | lists xs ys hmerge => exact List.map_append

theorem exists_append_iff (h : s.elemType = t.elemType) :
    (∃ u, s.append t = .ok u) ↔ ¬ ItemTypesClash s.itemType t.itemType := by
  rcases s with ⟨type, xs⟩ | ⟨known, xs⟩ <;> rcases t with ⟨type', ys⟩ | ⟨incoming, ys⟩
  · obtain rfl := elemType_inj h
    exact iff_of_true ⟨_, dif_pos rfl⟩ fun hclash => hclash.1 rfl
  · exact absurd h elemType_scalars_ne_list
  · exact absurd h.symm elemType_scalars_ne_list
  · rw [itemType, itemType, ← exists_mergeItemTypes_iff]
    constructor
    · intro hok
      obtain ⟨u, hu⟩ := hok
      obtain ⟨merged, hmerged, -⟩ := bind_eq_ok_iff.1 hu
      exact ⟨merged, hmerged⟩
    · intro hok
      obtain ⟨merged, hmerged⟩ := hok
      exact ⟨_, bind_eq_ok_iff.2 ⟨merged, hmerged, rfl⟩⟩

/-! ## Signatures -/

theorem samePattern_signatures (s : Storage) : SamePattern s.signatures s.values := by
  cases s with
  | scalars type cells =>
    refine (type.samePattern_signatures cells).trans ?_
    exact SamePattern.map_right (fun a b h => ScalarType.toValue_inj h) cells
  | lists itemType cells =>
    refine (samePattern_ordinals cells).trans ?_
    exact SamePattern.map_right (fun a b h => ListValue.toValue_inj.1 h) cells

theorem lt_wordCount_of_mem_signatures (hsize : s.size ≤ wordCount) {n : Nat}
    (hn : n ∈ s.signatures) : n < wordCount := by
  cases s with
  | scalars type cells => exact ScalarType.lt_wordCount_of_mem_signatures hsize hn
  | lists itemType cells => exact Nat.lt_of_lt_of_le (lt_length_of_mem_ordinals hn) hsize

end Storage

end ColumnFlow
