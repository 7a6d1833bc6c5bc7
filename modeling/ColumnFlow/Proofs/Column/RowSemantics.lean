import ColumnFlow.Proofs.Column.Derived

/-!
# What operations do to rows

Of every column that was made without pushing the reserved vertex, each operation is one on the list
of its rows, whatever the kind and the representation, and it faults in stated cases only
(`Column.row_semantics`).
-/

namespace ColumnFlow.Column

open Rows

variable {c d : Column}

/-- Every row can be read, and means its value where it is present. -/
def Readable (c : Column) : Prop :=
  ∀ i < c.size, ∃ v b, c.get i = .ok v ∧ c.hasValue i = .ok b ∧
    c.rowAt i = if b then some v else none

theorem readable_of_aligned (h : c.Aligned) : c.Readable := by
  intro i hi
  obtain ⟨v, b, hv, hb, hrow⟩ := exists_row h (getElem?_contents h hi)
  exact ⟨v, b, hv, hb, hrow⟩

/-- An operation faults exactly if `faults`, and otherwise makes a column of these rows. -/
structure Makes (result : Except Fault Column) (faults : Prop) (optional : Bool)
    (rows : List (Option Value)) : Prop where
  fault_iff : (∃ fault, result = .error fault) ↔ faults
  readable : ∀ e, result = .ok e → e.Readable
  optional_eq : ∀ e, result = .ok e → e.optional = optional
  rows_eq : ∀ e, result = .ok e → e.rows = rows

theorem makes_gather (hc : c.Aligned) (offsets : List Nat) :
    Makes (c.gather offsets) (∃ i ∈ offsets, c.size ≤ i) c.optional (offsets.map c.rowAt) := by
  have hok : (∃ d, c.gather offsets = .ok d) ↔ InRange c.size offsets := by
    constructor
    · intro hok
      obtain ⟨d, hd⟩ := hok
      exact inRange_of_gather hd
    · intro hi
      obtain ⟨d, hd, -⟩ := exists_gathered hc hi
      exact ⟨d, hd⟩
  refine ⟨?_, fun e he => ?_, fun e he => ?_, fun e he => ?_⟩
  · rw [exists_error_iff, hok]
    simp [InRange]
  all_goals have hg := gathered_of_gather hc he
  · exact readable_of_aligned hg.aligned
  · exact hg.optional_eq
  · rw [rows_eq_contents hg.aligned, hg.eq_map hc]

/-- The offsets of an optional gather as they are given, with the one that names no row. -/
theorem sourcesInRange_map_source? {n : Nat} {offsets : List Nat} :
    SourcesInRange n (offsets.map source?) ↔ ∀ i ∈ offsets, i ≠ noSource → i < n := by
  have hsource : ∀ i j : Nat, source? i = some j ↔ i ≠ noSource ∧ i = j := by
    intro i j
    by_cases hi : i = noSource <;> simp [source?, hi]
  constructor
  · intro h i hi hne
    exact h i (List.mem_map.2 ⟨i, hi, (hsource i i).2 ⟨hne, rfl⟩⟩)
  · intro h j hj
    obtain ⟨i, hi, hij⟩ := List.mem_map.1 hj
    obtain ⟨hne, rfl⟩ := (hsource i j).1 hij
    exact h i hi hne

theorem makes_gatherOptional (hc : c.Aligned) (hm : c.Marked) (offsets : List Nat) :
    Makes (c.gatherOptional (offsets.map source?))
      (c.isSegmented = true ∨ ∃ i ∈ offsets, i ≠ noSource ∧ c.size ≤ i) true
      (offsets.map fun i => if i = noSource then none else c.rowAt i) := by
  have hok : (∃ d, c.gatherOptional (offsets.map source?) = .ok d)
      ↔ c.isSegmented = false ∧ ∀ i ∈ offsets, i ≠ noSource → i < c.size := by
    rw [← sourcesInRange_map_source?]
    constructor
    · intro hok
      obtain ⟨d, hd⟩ := hok
      exact ⟨isSegmented_of_gatherOptional hd, inRange_of_gatherOptional hd⟩
    · intro hsources
      obtain ⟨hseg, hi⟩ := hsources
      obtain ⟨d, hd, -⟩ := exists_gatheredOptional hc hseg hi
      exact ⟨d, hd⟩
  refine ⟨?_, fun e he => ?_, fun e he => ?_, fun e he => ?_⟩
  · rw [exists_error_iff, hok, not_and_or, Bool.not_eq_false]
    simp
  all_goals have hg := gatheredOptional_of_gatherOptional hc he
  · exact readable_of_aligned hg.aligned
  · exact hg.optional_eq
  · rw [rows_eq_contents hg.aligned, hg.eq_map hc hm.real, List.map_map]
    apply List.map_congr_left
    intro i _
    by_cases hi : i = noSource <;> simp [source?, hi]

theorem makes_append (hc : c.Aligned) (hd : d.Aligned) (hmc : c.Marked) (hmd : d.Marked)
    (id : ArenaId) :
    Makes (c.append id d)
      (c.kind ≠ d.kind ∨ c.elemType ≠ d.elemType ∨ (c.isSegmented = true ∨ d.isSegmented = true) ∨
        Storage.ItemTypesClash c.itemType d.itemType)
      (c.optional || d.optional) (c.rows ++ d.rows) := by
  refine ⟨?_, fun e he => ?_, fun e he => ?_, fun e he => ?_⟩
  · rw [exists_error_iff, exists_append_iff, alike_iff]
    simp only [not_and_or, Bool.not_eq_false, not_not, or_assoc, ne_eq]
  all_goals have ha := aligned_of_append hc hd he
  all_goals have happ := appended_of_append hc hmc hmd he
  · exact readable_of_aligned ha
  · exact happ.optional_eq
  · rw [rows_eq_contents ha, rows_eq_contents hc, rows_eq_contents hd, happ.contents_eq]

/-- The meaning of gathering and appending, for all columns that can be made: every row can be read;
a gather faults if an offset names no row; an optional gather faults for runs, and if an offset other
than `noSource` names no row; an append faults if kinds, element types or known item types differ,
and for runs. Otherwise the rows are those named, or those of both columns. -/
theorem row_semantics (hc : c.WellMade) (hd : d.WellMade) (offsets : List Nat) (id : ArenaId) :
    c.Readable ∧
      Makes (c.gather offsets) (∃ i ∈ offsets, c.size ≤ i) c.optional (offsets.map c.rowAt) ∧
      Makes (c.gatherOptional (offsets.map source?))
        (c.isSegmented = true ∨ ∃ i ∈ offsets, i ≠ noSource ∧ c.size ≤ i) true
        (offsets.map fun i => if i = noSource then none else c.rowAt i) ∧
      Makes (c.append id d)
        (c.kind ≠ d.kind ∨ c.elemType ≠ d.elemType ∨
          (c.isSegmented = true ∨ d.isSegmented = true) ∨
          Storage.ItemTypesClash c.itemType d.itemType)
        (c.optional || d.optional) (c.rows ++ d.rows) :=
  ⟨readable_of_aligned hc.aligned, makes_gather hc.aligned offsets,
    makes_gatherOptional hc.aligned hc.marked offsets,
    makes_append hc.aligned hd.aligned hc.marked hd.marked id⟩

/-- A vertex, an absent row, and another vertex, under mixed labels. -/
def mixedSample : Column :=
  (Builder.mixed ⟨[⟨1, 5⟩, Vertex.absent, ⟨2, 5⟩], LabelSet.ofList [2, 1], true⟩).toColumn none

theorem wellMade_mixedSample : mixedSample.WellMade := by
  have hb : (Builder.mixed (MixedVertices.empty true)).Reachable fun v => v.isReserved = false :=
    .fresh (.mixed true)
  have hpush := ((hb.pushValue (v := .vertex ⟨1, 5⟩) rfl rfl).pushNull rfl).pushValue
    (v := .vertex ⟨2, 5⟩) rfl rfl
  exact .finish hpush 0 none

theorem row_semantics_mixedSample :
    (∀ e, mixedSample.gatherOptional ([2, noSource, 1].map source?) = .ok e →
      e.rows = [some (.vertex ⟨2, 5⟩), none, none]) ∧
      (∃ fault, mixedSample.gather [2, noSource, 1] = .error fault) ∧
      ∀ e, mixedSample.append 0 mixedSample = .ok e → e.optional = true := by
  obtain ⟨-, hgather, hoptional, happend⟩ :=
    row_semantics wellMade_mixedSample wellMade_mixedSample [2, noSource, 1] 0
  refine ⟨hoptional.rows_eq, ?_, happend.optional_eq⟩
  rw [hgather.fault_iff]
  exact ⟨noSource, by simp, by decide⟩

end ColumnFlow.Column
