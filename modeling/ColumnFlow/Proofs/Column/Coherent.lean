import ColumnFlow.Proofs.Column.Grouping
import ColumnFlow.Proofs.Column.Obtained

/-!
# Reading rows by index

Cells, presence and signatures are kept apart, and some of them are computed. Still a row can be
read in all three ways exactly if the column has it (`Column.Obtained.coherent`), so none of them is
ever out of step with the others.
-/

namespace ColumnFlow

open Rows

theorem Bitmap.Aligned.lt_of_get {n i : Nat} {bits : Bitmap} {b : Bool}
    (h : Aligned n (some bits)) (hb : bits.get i = .ok b) : i < n := by
  have hi := (List.getElem?_eq_some_iff.1 (get_eq_ok_iff.1 hb)).1
  rwa [length_toList, (h bits rfl).2] at hi

theorem VertexColumn.lt_size_of_hasValue {c : VertexColumn} {i : Nat} {b : Bool}
    (h : c.hasValue i = .ok b) : i < c.size := by
  cases c with
  | single s =>
    obtain ⟨vid, hvid, -⟩ := bind_eq_ok_iff.1 h
    exact (List.getElem?_eq_some_iff.1 (fetch_eq_ok_iff.1 hvid)).1
  | segmented s =>
    by_contra hi
    cases (if_neg hi).symm.trans h
  | mixed m =>
    obtain ⟨v, hv, -⟩ := bind_eq_ok_iff.1 h
    exact (List.getElem?_eq_some_iff.1 (fetch_eq_ok_iff.1 hv)).1

theorem RecordColumn.lt_size_of_hasValue {α : Type} [Record α] {c : RecordColumn α} {i : Nat}
    {b : Bool} (hc : c.Aligned) (h : c.hasValue i = .ok b) : i < c.size := by
  rw [Aligned] at hc
  unfold hasValue at h
  cases hbits : c.validity with
  | some bits =>
    rw [hbits] at hc h
    exact hc.lt_of_get h
  | none =>
    rw [hbits] at h
    by_contra hi
    cases (if_neg hi).symm.trans h

namespace Column

variable {c : Column} {allowed : Value → Prop} {i : Nat}

/-- Rows are read by index exactly where the column has them: their cells, their presence, and their
signatures, of which there is one for each row. -/
structure Coherent (c : Column) : Prop where
  get_ok_iff : ∀ i, (∃ v, c.get i = .ok v) ↔ i < c.size
  hasValue_ok_iff : ∀ i, (∃ b, c.hasValue i = .ok b) ↔ i < c.size
  signatures : ∃ numbers, c.signatures = .ok numbers ∧ numbers.length = c.size
  signatureAt_ok_iff : ∀ i, (∃ n, c.signatureAt i = .ok n) ↔ i < c.size

theorem lt_size_of_hasValue {b : Bool} (hc : c.Aligned) (h : c.hasValue i = .ok b) :
    i < c.size := by
  cases c with
  | vertex c => exact VertexColumn.lt_size_of_hasValue h
  | edge c | path c => exact RecordColumn.lt_size_of_hasValue hc h
  | value c =>
    by_contra hi
    cases (if_neg hi).symm.trans h
  | optionalValue c => exact Bitmap.Aligned.lt_of_get hc h

theorem exists_hasValue_iff (hc : c.Aligned) : (∃ b, c.hasValue i = .ok b) ↔ i < c.size := by
  constructor
  · intro hok
    obtain ⟨b, h⟩ := hok
    exact lt_size_of_hasValue hc h
  · intro hi
    obtain ⟨v, b, -, hb, -⟩ := exists_row hc (getElem?_contents hc hi)
    exact ⟨b, hb⟩

/-- There is a number for each row, also for rows with the reserved vertex. -/
theorem exists_signatures_length (hc : c.Aligned) :
    ∃ numbers, c.signatures = .ok numbers ∧ numbers.length = c.size := by
  cases c with
  | vertex c =>
    refine ⟨_, rfl, ?_⟩
    rw [VertexColumn.signatures_eq, List.length_map, VertexColumn.length_vertices, size]
  | edge c | path c =>
    refine ⟨_, RecordColumn.signatures_eq hc, ?_⟩
    rw [(samePattern_ordinals _).length_eq, RecordColumn.length_contents hc, size]
  | value c =>
    refine ⟨_, rfl, ?_⟩
    rw [(Storage.samePattern_signatures _).length_eq, Storage.length_values]
    rfl
  | optionalValue c =>
    refine ⟨_, OptionalValueColumn.signatures_eq hc, ?_⟩
    rw [(OptionalValueColumn.samePattern_signatures c).length_eq,
      OptionalValueColumn.length_contents hc, size]

theorem coherent_of_aligned (hc : c.Aligned) : c.Coherent := by
  obtain ⟨numbers, hnumbers, hlen⟩ := exists_signatures_length hc
  refine ⟨fun i => exists_get_iff, fun i => exists_hasValue_iff hc, ⟨numbers, hnumbers, hlen⟩, ?_⟩
  intro i
  simp only [signatureAt_eq_ok_iff hnumbers, ← Option.isSome_iff_exists, ← hlen]
  simp

/-- Whatever is built, gathered, appended, grouped and unfolded, of whatever values, the rows of a
column are read exactly where it has them. -/
theorem Obtained.coherent (h : c.Obtained allowed) : c.Coherent := coherent_of_aligned h.aligned

/-- Two rows: a list of a number and a null, and an absent one. -/
def partlyNullColumn : Column :=
  .optionalValue ⟨⟨.lists .int32 [⟨.int32, [.int32 7, .null]⟩, ⟨.int32, []⟩], none⟩,
    Bitmap.ofList [true, false]⟩

/-- What it is unfolded to: a number, and an absent row. -/
def partlyNullItems : Column :=
  .optionalValue ⟨⟨.scalars .int32 [7, 0], none⟩, Bitmap.ofList [true, false]⟩

theorem obtained_partlyNullColumn : partlyNullColumn.Obtained fun _ => True := by
  have hnew : Builder.ofType .list true
      = .ok (.value (ValueBuilder.ofStorage (.lists .null []) true)) := rfl
  have hb : (Builder.value (ValueBuilder.ofStorage (.lists .null []) true)).Reachable
      fun _ => True := .fresh (Builder.fresh_of_ofType hnew)
  have hpush := (hb.pushValue (v := .list .int32 [.int32 7, .null]) trivial rfl).pushNull rfl
  exact .finish hpush 0 none

theorem obtained_partlyNullItems : partlyNullItems.Obtained fun _ => True := by
  have hunfold : (⟨[some partlyNullColumn], true⟩ : Context).unfold 0 0 Settings.defaults
      = .ok ⟨[some partlyNullItems], true⟩ := rfl
  refine .unfold (fun t c hc => ?_) hunfold (a := 0) rfl
  cases t with
  | zero =>
    cases hc
    exact obtained_partlyNullColumn
  | succ t => cases hc

/-- The absent row is read as the other one, and there is no third row to be read. -/
theorem coherent_partlyNullItems :
    (∃ n, partlyNullItems.signatureAt 1 = .ok n) ∧ ¬ ∃ b, partlyNullItems.hasValue 2 = .ok b := by
  have h := obtained_partlyNullItems.coherent
  rw [h.signatureAt_ok_iff, h.hasValue_ok_iff]
  decide

end Column

end ColumnFlow
