import ColumnFlow.Column.Basic
import ColumnFlow.Proofs.Column.Records
import ColumnFlow.Proofs.Column.Values
import ColumnFlow.Proofs.Column.Vertices

/-!
# The contents of columns

A column of any kind means one list: the value of each row, nothing where the row is absent. Under
two invariants every operation on columns is an operation on this list. `Aligned` says that bitmaps
have a bit for each row, `Marked` that the reserved vertex id stands in absent rows only.
-/

namespace ColumnFlow.Column

open Rows

variable {c d e : Column}

/-- Bitmaps have a bit for each row. -/
def Aligned : Column → Prop
  | edge c => c.Aligned
  | path c => c.Aligned
  | optionalValue c => c.Aligned
  | vertex _ | value _ => True

/-- The reserved vertex id stands in absent rows only. -/
def Marked : Column → Prop
  | vertex c => c.Marked
  | _ => True

/-- No present row is the reserved vertex. -/
def Real : Column → Prop
  | vertex c => c.Real
  | _ => True

theorem Marked.real (h : c.Marked) : c.Real := by
  cases c with
  | vertex c => exact VertexColumn.Marked.real h
  | edge c | value c | optionalValue c | path c => trivial

/-- What the rows hold, nothing where they are absent. -/
def contents : Column → List (Option Value)
  | vertex c => c.contents.map (Option.map .vertex)
  | edge c => c.contents.map (Option.map .edge)
  | value c => c.contents
  | optionalValue c => c.contents
  | path c => c.contents.map (Option.map .path)

@[simp] theorem length_contents (h : c.Aligned) : c.contents.length = c.size := by
  cases c with
  | vertex c => rw [contents, List.length_map, VertexColumn.length_contents, size]
  | edge c => rw [contents, List.length_map, RecordColumn.length_contents h, size]
  | value c => rw [contents, ValueColumn.contents, List.length_map, Storage.length_values]; rfl
  | optionalValue c => exact OptionalValueColumn.length_contents h
  | path c => rw [contents, List.length_map, RecordColumn.length_contents h, size]

/-! ## Cells -/

/-- What is stored in the rows, placeholders included. -/
def cells : Column → List Value
  | vertex c => c.vertices.map .vertex
  | edge c => c.cells.map .edge
  | value c => c.storage.values
  | optionalValue c => c.values.storage.values
  | path c => c.cells.map .path

@[simp] theorem length_cells (c : Column) : c.cells.length = c.size := by
  cases c with
  | vertex c => rw [cells, List.length_map, VertexColumn.length_vertices, size]
  | edge c | path c => exact List.length_map _
  | value c | optionalValue c => exact Storage.length_values _

theorem get_eq_ok_iff {i : Nat} {v : Value} : c.get i = .ok v ↔ c.cells[i]? = some v := by
  cases c with
  | vertex c =>
    rw [get, map_eq_ok_iff, cells, List.getElem?_map, Option.map_eq_some_iff]
    exact exists_congr fun x => and_congr_left fun _ => VertexColumn.get_eq_ok_iff
  | edge c | path c =>
    rw [get, map_eq_ok_iff, cells, List.getElem?_map, Option.map_eq_some_iff]
    exact exists_congr fun x => and_congr_left fun _ => RecordColumn.get_eq_ok_iff
  | value c => exact ValueColumn.get_eq_ok_iff
  | optionalValue c => exact OptionalValueColumn.get_eq_ok_iff

theorem exists_get_iff {i : Nat} : (∃ v, c.get i = .ok v) ↔ i < c.size := by
  simp only [get_eq_ok_iff, ← Option.isSome_iff_exists]
  simp

theorem cells_of_gather {offsets : List Nat} (h : c.gather offsets = .ok d) :
    Rows.gather c.cells offsets = .ok d.cells := by
  cases c with
  | vertex c =>
    obtain ⟨d, hd, rfl⟩ := map_eq_ok_iff.1 h
    exact gather_map _ (VertexColumn.gathered_of_gather hd).vertices_eq
  | edge c | path c =>
    obtain ⟨d, hd, rfl⟩ := map_eq_ok_iff.1 h
    exact gather_map _ (RecordColumn.cells_of_gather hd)
  | value c =>
    obtain ⟨d, hd, rfl⟩ := map_eq_ok_iff.1 h
    exact Storage.values_of_gather (ValueColumn.storage_of_gather hd)
  | optionalValue c =>
    obtain ⟨d, hd, rfl⟩ := map_eq_ok_iff.1 h
    exact Storage.values_of_gather (OptionalValueColumn.storage_of_gather hd)

/-- What is stored in a row that has no source. -/
def placeholder : Column → Value
  | vertex c => .vertex c.placeholder
  | edge _ => .edge Record.placeholder
  | value c => c.storage.placeholder
  | optionalValue c => c.values.storage.placeholder
  | path _ => .path Record.placeholder

theorem cells_of_gatherOptional {offsets : List (Option Nat)}
    (h : c.gatherOptional offsets = .ok d) :
    Rows.gatherOptional c.placeholder c.cells offsets = .ok d.cells := by
  cases c with
  | vertex c =>
    obtain ⟨d, hd, rfl⟩ := map_eq_ok_iff.1 h
    have hg := (VertexColumn.gatheredOptional_of_gatherOptional hd).2
    exact gatherOptional_map Value.vertex hg.vertices_eq
  | edge c =>
    obtain ⟨d, hd, rfl⟩ := map_eq_ok_iff.1 h
    exact gatherOptional_map Value.edge (RecordColumn.cells_of_gatherOptional hd)
  | path c =>
    obtain ⟨d, hd, rfl⟩ := map_eq_ok_iff.1 h
    exact gatherOptional_map Value.path (RecordColumn.cells_of_gatherOptional hd)
  | value c =>
    obtain ⟨d, hd, rfl⟩ := map_eq_ok_iff.1 h
    exact Storage.values_of_gatherOptional (ValueColumn.storage_of_gatherOptional hd)
  | optionalValue c =>
    obtain ⟨d, hd, rfl⟩ := map_eq_ok_iff.1 h
    exact Storage.values_of_gatherOptional (OptionalValueColumn.storage_of_gatherOptional hd)

/-! ## Reading rows -/

/-- Every row can be read, and it holds what its value and its presence say. -/
theorem exists_row (h : c.Aligned) {i : Nat} {row : Option Value} (hrow : c.contents[i]? = some row) :
    ∃ v b, c.get i = .ok v ∧ c.hasValue i = .ok b ∧ row = keep v b := by
  cases c with
  | vertex c =>
    rw [contents, VertexColumn.contents, List.map_map, List.getElem?_map,
      Option.map_eq_some_iff] at hrow
    obtain ⟨v, hv, rfl⟩ := hrow
    refine ⟨.vertex v, _, map_eq_ok_iff.2 ⟨v, VertexColumn.get_eq_ok_iff.2 hv, rfl⟩,
      VertexColumn.hasValue_of_getElem? hv, ?_⟩
    -- what makes the row absent is what makes its vertex mean nothing
    show (VertexColumn.meaning c.optional v).map Value.vertex = _
    rw [VertexColumn.isSome_meaning, VertexColumn.meaning]
    cases c.optional && v.isNone <;> rfl
  | edge c =>
    rw [contents, List.getElem?_map, Option.map_eq_some_iff] at hrow
    obtain ⟨row, hrow, rfl⟩ := hrow
    obtain ⟨x, b, hx, hb, rfl⟩ := RecordColumn.exists_row h hrow
    refine ⟨_, b, map_eq_ok_iff.2 ⟨x, hx, rfl⟩, hb, ?_⟩
    cases b <;> rfl
  | value c =>
    rw [contents, ValueColumn.contents, List.getElem?_map, Option.map_eq_some_iff] at hrow
    obtain ⟨v, hv, rfl⟩ := hrow
    have hi : i < c.size := by
      have := (List.getElem?_eq_some_iff.1 hv).1
      rwa [Storage.length_values] at this
    exact ⟨v, true, ValueColumn.get_eq_ok_iff.2 hv, if_pos hi, rfl⟩
  | optionalValue c =>
    obtain ⟨v, b, hv, hb, rfl⟩ := getElem?_mask_eq_some hrow
    exact ⟨v, b, OptionalValueColumn.get_eq_ok_iff.2 hv,
      OptionalValueColumn.hasValue_eq_ok_iff.2 hb, rfl⟩
  | path c =>
    rw [contents, List.getElem?_map, Option.map_eq_some_iff] at hrow
    obtain ⟨row, hrow, rfl⟩ := hrow
    obtain ⟨x, b, hx, hb, rfl⟩ := RecordColumn.exists_row h hrow
    refine ⟨_, b, map_eq_ok_iff.2 ⟨x, hx, rfl⟩, hb, ?_⟩
    cases b <;> rfl

theorem rowAt_of_reads {i : Nat} {v : Value} {b : Bool} (hv : c.get i = .ok v)
    (hb : c.hasValue i = .ok b) : c.rowAt i = keep v b := by
  rw [rowAt, hv, hb]
  cases b <;> rfl

/-- A row means a value exactly if it is present and reads as this value. -/
theorem rowAt_eq_some_iff {i : Nat} {v : Value} :
    c.rowAt i = some v ↔ c.hasValue i = .ok true ∧ c.get i = .ok v := by
  constructor
  · intro h
    unfold rowAt at h
    split at h
    · next w hb hw =>
      cases h
      exact ⟨hb, hw⟩
    · cases h
  · intro h
    exact rowAt_of_reads h.2 h.1

theorem getElem?_contents (h : c.Aligned) {i : Nat} (hi : i < c.size) :
    c.contents[i]? = some (c.rowAt i) := by
  have hrow := List.getElem?_eq_getElem (show i < c.contents.length by rwa [length_contents h])
  obtain ⟨v, b, hv, hb, hkeep⟩ := exists_row h hrow
  rw [hrow, hkeep, rowAt_of_reads hv hb]

theorem rows_eq_contents (h : c.Aligned) : c.rows = c.contents := by
  apply List.ext_getElem?
  intro i
  rw [rows, List.getElem?_map]
  by_cases hi : i < c.size
  · rw [List.getElem?_range hi, getElem?_contents h hi]
    rfl
  · rw [List.getElem?_eq_none (by rw [List.length_range]; omega),
      List.getElem?_eq_none (by rw [length_contents h]; omega)]
    rfl

/-- A column that is read cell by cell, as its presence bits say. -/
theorem rows_eq_mask {α : Type} {f : α → Value} {cells : List α}
    {bits : List Bool} (hsize : c.size = cells.length)
    (hget : ∀ (i : Nat) (a : α), cells[i]? = some a → c.get i = .ok (f a))
    (hbits : (List.range' 0 cells.length).map c.hasValue = bits.map .ok) :
    c.rows = (mask cells bits).map (Option.map f) := by
  have hlen : bits.length = cells.length := by
    have := congrArg List.length hbits
    simpa using this.symm
  -- row by row, in the cells and behind them
  apply List.ext_getElem?
  intro i
  rw [rows, hsize, List.getElem?_map, List.getElem?_map, getElem?_mask]
  by_cases hi : i < cells.length
  · have hcell : cells[i]? = some cells[i] := List.getElem?_eq_getElem hi
    have hbit : bits[i]? = some bits[i] := List.getElem?_eq_getElem (hlen.symm ▸ hi)
    have hpresent : c.hasValue i = .ok bits[i] := by
      have := congrArg (·[i]?) hbits
      rw [List.getElem?_map, List.getElem?_map, ← List.range_eq_range', List.getElem?_range hi,
        hbit] at this
      exact Option.some.inj this
    rw [List.getElem?_range hi, hcell, hbit]
    show some (c.rowAt i) = some (Option.map f (keep cells[i] bits[i]))
    rw [rowAt_of_reads (hget i _ hcell) hpresent]
    cases bits[i] <;> rfl
  · rw [List.getElem?_eq_none (by rw [List.length_range]; omega),
      List.getElem?_eq_none (by omega : cells.length ≤ i)]
    rfl

theorem hasValue_of_absent (h : c.Aligned) {i : Nat} (hrow : c.contents[i]? = some none) :
    c.hasValue i = .ok false := by
  obtain ⟨v, b, -, hb, hkeep⟩ := exists_row h hrow
  cases b with
  | false => exact hb
  | true => cases hkeep

/-- A row of one column equals a row of another: both are absent, or both are present and have
the same value. -/
def SameRow (c : Column) (i : Nat) (d : Column) (j : Nat) : Prop :=
  (c.hasValue i = .ok false ∧ d.hasValue j = .ok false) ∨
    (c.hasValue i = .ok true ∧ d.hasValue j = .ok true ∧ ∃ v, c.get i = .ok v ∧ d.get j = .ok v)

/-- Equal rows are both present or both absent. -/
theorem SameRow.hasValue_eq {i j : Nat} (h : c.SameRow i d j) : c.hasValue i = d.hasValue j := by
  rcases h with ⟨hc, hd⟩ | ⟨hc, hd, -⟩ <;> rw [hc, hd]

theorem sameRow_iff (hc : c.Aligned) (hd : d.Aligned) {i j : Nat} (hi : i < c.size)
    (hj : j < d.size) : c.SameRow i d j ↔ c.contents[i]? = d.contents[j]? := by
  rw [getElem?_contents hc hi, getElem?_contents hd hj, Option.some_inj]
  obtain ⟨v, b, hv, hb, -⟩ := exists_row hc (getElem?_contents hc hi)
  obtain ⟨w, p, hw, hp, -⟩ := exists_row hd (getElem?_contents hd hj)
  rw [rowAt_of_reads hv hb, rowAt_of_reads hw hp, SameRow, hv, hb, hw, hp]
  cases b <;> cases p
  case true.true => simp [keep, eq_comm]
  all_goals simp [keep]

/-! ## Gathering -/

/-- A gather keeps the invariants and gathers the contents. -/
structure Gathered (c : Column) (offsets : List Nat) (d : Column) : Prop where
  aligned : d.Aligned
  marked : c.Marked → d.Marked
  real : c.Real → d.Real
  optional_eq : d.optional = c.optional
  contents_eq : Rows.gather c.contents offsets = .ok d.contents

theorem inRange_of_gather {offsets : List Nat} (h : c.gather offsets = .ok d) :
    InRange c.size offsets := by
  rw [← length_cells]
  exact exists_gather_iff.1 ⟨_, cells_of_gather h⟩

/-- A gather has a row for each offset. -/
theorem size_of_gather {offsets : List Nat} (h : c.gather offsets = .ok d) :
    d.size = offsets.length := by
  rw [← length_cells, length_of_gather (cells_of_gather h)]

theorem exists_gathered (hc : c.Aligned) {offsets : List Nat} (hi : InRange c.size offsets) :
    ∃ d, c.gather offsets = .ok d ∧ Gathered c offsets d := by
  cases c with
  | vertex c =>
    obtain ⟨d, hd⟩ := VertexColumn.exists_gather hi
    have h := VertexColumn.gathered_of_gather hd
    exact ⟨.vertex d, map_eq_ok_iff.2 ⟨d, hd, rfl⟩, trivial, h.marked, h.real,
      h.optional_eq, gather_map _ h.contents_eq⟩
  | edge c =>
    obtain ⟨d, hd, ha, hopt, h⟩ := RecordColumn.exists_gather hc hi
    exact ⟨.edge d, map_eq_ok_iff.2 ⟨d, hd, rfl⟩, ha, id, id, hopt, gather_map _ h⟩
  | value c =>
    obtain ⟨d, hd, h⟩ := ValueColumn.exists_gather hi
    exact ⟨.value d, map_eq_ok_iff.2 ⟨d, hd, rfl⟩, trivial, id, id, rfl, h⟩
  | optionalValue c =>
    obtain ⟨d, hd, ha, h⟩ := OptionalValueColumn.exists_gather hc hi
    exact ⟨.optionalValue d, map_eq_ok_iff.2 ⟨d, hd, rfl⟩, ha, id, id, rfl, h⟩
  | path c =>
    obtain ⟨d, hd, ha, hopt, h⟩ := RecordColumn.exists_gather hc hi
    exact ⟨.path d, map_eq_ok_iff.2 ⟨d, hd, rfl⟩, ha, id, id, hopt, gather_map _ h⟩

theorem gathered_of_gather (hc : c.Aligned) {offsets : List Nat} (h : c.gather offsets = .ok d) :
    Gathered c offsets d := by
  obtain ⟨d', hd', hg⟩ := exists_gathered hc (inRange_of_gather h)
  obtain rfl : d' = d := Except.ok.inj (hd'.symm.trans h)
  exact hg

theorem Gathered.eq_map (hc : c.Aligned) {offsets : List Nat} (h : Gathered c offsets d) :
    d.contents = offsets.map c.rowAt := by
  have hi := exists_gather_iff.1 ⟨_, h.contents_eq⟩
  rw [eq_map_of_gather h.contents_eq]
  apply List.map_congr_left
  intro i hmem
  rw [getElem?_contents hc (length_contents hc ▸ hi i hmem)]
  rfl

/-- The column is one of vertices in runs. -/
def isSegmented : Column → Bool
  | vertex c => c.isSegmented
  | _ => false

/-- An optional gather keeps the invariants and gathers the contents; rows without a source are
absent. -/
structure GatheredOptional (c : Column) (offsets : List (Option Nat)) (d : Column) : Prop where
  aligned : d.Aligned
  optional_eq : d.optional = true
  marked : c.Marked → d.Marked
  real : c.Real → d.Real
  contents_eq : c.Real → Rows.gatherOptional none c.contents offsets = .ok d.contents

theorem isSegmented_of_gatherOptional {offsets : List (Option Nat)}
    (h : c.gatherOptional offsets = .ok d) : c.isSegmented = false := by
  cases c with
  | vertex c =>
    obtain ⟨d, hd, -⟩ := map_eq_ok_iff.1 h
    exact (VertexColumn.gatheredOptional_of_gatherOptional hd).1
  | edge c | value c | optionalValue c | path c => rfl

theorem inRange_of_gatherOptional {offsets : List (Option Nat)}
    (h : c.gatherOptional offsets = .ok d) : SourcesInRange c.size offsets := by
  rw [← length_cells]
  exact exists_gatherOptional_iff.1 ⟨_, cells_of_gatherOptional h⟩

/-- An optional gather has a row for each offset. -/
theorem size_of_gatherOptional {offsets : List (Option Nat)} (h : c.gatherOptional offsets = .ok d) :
    d.size = offsets.length := by
  rw [← length_cells, length_of_gatherOptional (cells_of_gatherOptional h)]

theorem exists_gatheredOptional (hc : c.Aligned) (hseg : c.isSegmented = false)
    {offsets : List (Option Nat)} (hi : SourcesInRange c.size offsets) :
    ∃ d, c.gatherOptional offsets = .ok d ∧ GatheredOptional c offsets d := by
  cases c with
  | vertex c =>
    obtain ⟨d, hd⟩ := VertexColumn.exists_gatherOptional hseg hi
    have h := (VertexColumn.gatheredOptional_of_gatherOptional hd).2
    exact ⟨.vertex d, map_eq_ok_iff.2 ⟨d, hd, rfl⟩, trivial, h.optional_eq, h.marked, h.real,
      fun hreal => gatherOptional_map (Option.map Value.vertex) (h.contents_eq hreal)⟩
  | edge c =>
    obtain ⟨d, hd, ha, hopt, h⟩ := RecordColumn.exists_gatherOptional hc hi
    exact ⟨.edge d, map_eq_ok_iff.2 ⟨d, hd, rfl⟩, ha, hopt, id, id,
      fun _ => gatherOptional_map (Option.map Value.edge) h⟩
  | value c =>
    obtain ⟨d, hd, ha, h⟩ := ValueColumn.exists_gatherOptional hi
    exact ⟨.optionalValue d, map_eq_ok_iff.2 ⟨d, hd, rfl⟩, ha, rfl, id, id, fun _ => h⟩
  | optionalValue c =>
    obtain ⟨d, hd, ha, h⟩ := OptionalValueColumn.exists_gatherOptional hc hi
    exact ⟨.optionalValue d, map_eq_ok_iff.2 ⟨d, hd, rfl⟩, ha, rfl, id, id, fun _ => h⟩
  | path c =>
    obtain ⟨d, hd, ha, hopt, h⟩ := RecordColumn.exists_gatherOptional hc hi
    exact ⟨.path d, map_eq_ok_iff.2 ⟨d, hd, rfl⟩, ha, hopt, id, id,
      fun _ => gatherOptional_map (Option.map Value.path) h⟩

theorem gatheredOptional_of_gatherOptional (hc : c.Aligned) {offsets : List (Option Nat)}
    (h : c.gatherOptional offsets = .ok d) : GatheredOptional c offsets d := by
  obtain ⟨d', hd', hg⟩ :=
    exists_gatheredOptional hc (isSegmented_of_gatherOptional h) (inRange_of_gatherOptional h)
  obtain rfl : d' = d := Except.ok.inj (hd'.symm.trans h)
  exact hg

theorem GatheredOptional.eq_map (hc : c.Aligned) (hreal : c.Real) {offsets : List (Option Nat)}
    (h : GatheredOptional c offsets d) :
    d.contents = offsets.map fun o => o.bind c.rowAt := by
  have hi := exists_gatherOptional_iff.1 ⟨_, h.contents_eq hreal⟩
  rw [eq_map_of_gatherOptional (h.contents_eq hreal)]
  apply List.map_congr_left
  intro o hmem
  rcases o with _ | i
  · rfl
  · show c.contents[i]?.join = c.rowAt i
    rw [getElem?_contents hc (length_contents hc ▸ hi i hmem)]
    rfl

end ColumnFlow.Column
