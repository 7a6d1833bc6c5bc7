import ColumnFlow.Proofs.Column.Contents

/-!
# Where rows come from

A gather, optional or not, gives every row of its result a source: a row of the column it is made
from, or none. What a row reads as, its presence and its cell, is what its source reads as
(`RowsFrom`). Sources are followed from gather to gather.
-/

namespace ColumnFlow.Column

open Rows

variable {c d e : Column}

/-- The rows of `d` are made of rows of `c`: a row without a source is absent, and a row with a
source is present exactly if that is, and has the same cell. -/
structure RowsFrom (c : Column) (source : Nat → Option Nat) (d : Column) : Prop where
  absent : ∀ r < d.size, source r = none → d.hasValue r = .ok false
  reads : ∀ r < d.size, ∀ i, source r = some i →
    i < c.size ∧ d.hasValue r = c.hasValue i ∧ d.get r = c.get i

theorem RowsFrom.refl (c : Column) : c.RowsFrom some c where
  absent := fun _ _ hnone => by cases hnone
  reads := fun r hr i hi => by
    cases hi
    exact ⟨hr, rfl, rfl⟩

/-- The source of a row is that of its source. -/
theorem RowsFrom.trans {source source' : Nat → Option Nat} (h : c.RowsFrom source d)
    (h' : d.RowsFrom source' e) : c.RowsFrom (fun r => (source' r).bind source) e where
  absent := fun r hr hnone => by
    cases hj : source' r with
    | none => exact h'.absent r hr hj
    | some j =>
      obtain ⟨hlt, hpresent, -⟩ := h'.reads r hr j hj
      rw [hj] at hnone
      rw [hpresent]
      exact h.absent j hlt hnone
  reads := fun r hr i hi => by
    obtain ⟨j, hj, hsource⟩ := Option.bind_eq_some_iff.1 hi
    obtain ⟨hlt, hpresent, hcell⟩ := h'.reads r hr j hj
    obtain ⟨hlt, hpresent', hcell'⟩ := h.reads j hlt i hsource
    exact ⟨hlt, hpresent.trans hpresent', hcell.trans hcell'⟩

/-- Rows that hold the same are both present or both absent. -/
theorem hasValue_eq_of_contents (hc : c.Aligned) (hd : d.Aligned) {i j : Nat} (hi : i < c.size)
    (hj : j < d.size) (h : c.contents[i]? = d.contents[j]?) : c.hasValue i = d.hasValue j :=
  ((sameRow_iff hc hd hi hj).2 h).hasValue_eq

theorem get_eq_of_cells {i j : Nat} {v : Value} (hi : c.cells[i]? = some v)
    (hj : d.cells[j]? = some v) : c.get i = d.get j := by
  rw [get_eq_ok_iff.2 hi, get_eq_ok_iff.2 hj]

theorem rowsFrom_of_gather (hc : c.Aligned) {offsets : List Nat} (h : c.gather offsets = .ok d) :
    c.RowsFrom (offsets[·]?) d where
  absent := fun r hr hnone => by
    rw [size_of_gather h] at hr
    exact absurd (List.getElem?_eq_none_iff.1 hnone) (Nat.not_le.2 hr)
  reads := fun r hr i hi => by
    have hg := gathered_of_gather hc h
    have hlt : i < c.size := inRange_of_gather h i (List.mem_of_getElem? hi)
    obtain ⟨row, hsource, hrow⟩ := getElem?_of_gather hg.contents_eq hi
    obtain ⟨cell, hcell, hcell'⟩ := getElem?_of_gather (cells_of_gather h) hi
    exact ⟨hlt, hasValue_eq_of_contents hg.aligned hc hr hlt (hrow.trans hsource.symm),
      get_eq_of_cells hcell' hcell⟩

theorem rowsFrom_of_gatherOptional (hc : c.Aligned) (hreal : c.Real) {offsets : List (Option Nat)}
    (h : c.gatherOptional offsets = .ok d) : c.RowsFrom (fun r => offsets[r]?.join) d := by
  have hg := gatheredOptional_of_gatherOptional hc h
  have hoffset : ∀ r < d.size, ∃ o, offsets[r]? = some o := by
    intro r hr
    rw [size_of_gatherOptional h] at hr
    exact ⟨offsets[r], List.getElem?_eq_getElem hr⟩
  constructor
  · intro r hr hnone
    obtain ⟨o, ho⟩ := hoffset r hr
    rw [ho] at hnone
    obtain rfl : o = none := hnone
    obtain ⟨row, hsource, hrow⟩ := getElem?_of_gatherOptional (hg.contents_eq hreal) ho
    cases hsource
    exact hasValue_of_absent hg.aligned hrow
  · intro r hr i hi
    have ho := Option.join_eq_some_iff.1 hi
    have hlt : i < c.size := inRange_of_gatherOptional h i (List.mem_of_getElem? ho)
    obtain ⟨row, hsource, hrow⟩ := getElem?_of_gatherOptional (hg.contents_eq hreal) ho
    obtain ⟨cell, hcell, hcell'⟩ := getElem?_of_gatherOptional (cells_of_gatherOptional h) ho
    exact ⟨hlt, hasValue_eq_of_contents hg.aligned hc hr hlt (hrow.trans hsource.symm),
      get_eq_of_cells hcell' hcell⟩

end ColumnFlow.Column
