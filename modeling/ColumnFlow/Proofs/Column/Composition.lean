import ColumnFlow.Proofs.Column.Parts
import ColumnFlow.Proofs.Column.RowSemantics
import ColumnFlow.Proofs.Rows.Composition

/-!
# Gathers of gathered columns

A column that is gathered twice is gathered once, by the offsets that go through both gathers
(`Column.gathers_compose`). The results are equal in every part: representation, labels, bitmaps,
arena, and what is stored in absent rows.
-/

namespace ColumnFlow.Column

open Rows

variable {c d e : Column}

/-- Each row of `d` is stored as the row of `c` that its offset names, and as a row without a source
if it names none. -/
structure Drawn (c : Column) (offsets : List (Option Nat)) (d : Column) : Prop where
  aligned : d.Aligned
  absence : SameAbsence c d
  cells_eq : Rows.gatherOptional c.placeholder c.cells offsets = .ok d.cells
  bits_eq : Rows.gatherOptional c.absentBit c.bits offsets = .ok d.bits

theorem drawn_of_gather (hc : c.Aligned) {offsets : List Nat} (h : c.gather offsets = .ok d) :
    Drawn c (offsets.map some) d where
  aligned := (gathered_of_gather hc h).aligned
  absence := sameAbsence_of_gather h
  cells_eq := (gatherOptional_map_some _ _ _).trans (cells_of_gather h)
  bits_eq := (gatherOptional_map_some _ _ _).trans (bits_of_gather h)

theorem drawn_of_gatherOptional (hc : c.Aligned) {offsets : List (Option Nat)}
    (h : c.gatherOptional offsets = .ok d) : Drawn c offsets d where
  aligned := (gatheredOptional_of_gatherOptional hc h).aligned
  absence := sameAbsence_of_gatherOptional h
  cells_eq := cells_of_gatherOptional h
  bits_eq := bits_of_gatherOptional h

/-- A column is drawn from itself by all offsets in order. -/
theorem drawn_range (hc : c.Aligned) : Drawn c ((List.range c.size).map some) c where
  aligned := hc
  absence := ⟨rfl, rfl, rfl⟩
  cells_eq := by
    rw [gatherOptional_map_some, ← length_cells]
    exact gather_range c.cells
  bits_eq := by
    rw [gatherOptional_map_some, ← Bitmap.length_presence (aligned_iff.1 hc)]
    exact gather_range c.bits

theorem Drawn.trans {first second : List (Option Nat)} (h : Drawn c first d)
    (h' : Drawn d second e) : Drawn c (through first second) e where
  aligned := h'.aligned
  absence := ⟨h'.absence.arena_eq.trans h.absence.arena_eq,
    h'.absence.placeholder_eq.trans h.absence.placeholder_eq,
    h'.absence.absentBit_eq.trans h.absence.absentBit_eq⟩
  cells_eq := gatherOptional_through h.cells_eq (h.absence.placeholder_eq ▸ h'.cells_eq)
  bits_eq := gatherOptional_through h.bits_eq (h.absence.absentBit_eq ▸ h'.bits_eq)

/-- Two columns of one frame that are drawn by the same offsets are equal. -/
theorem Drawn.eq {offsets : List (Option Nat)} (hd : Drawn c offsets d) (he : Drawn c offsets e)
    (hseg : d.isSegmented = false) (hframe : d.frame = e.frame) : d = e :=
  eq_of_parts hd.aligned he.aligned hseg hframe
    (Except.ok.inj (hd.cells_eq.symm.trans he.cells_eq))
    (Except.ok.inj (hd.bits_eq.symm.trans he.bits_eq))
    (hd.absence.arena_eq.trans he.absence.arena_eq.symm)

theorem Drawn.sourcesInRange {offsets : List (Option Nat)} (h : Drawn c offsets d) :
    SourcesInRange c.size offsets := by
  rw [← length_cells]
  exact sourcesInRange_of_gatherOptional h.cells_eq

/-- What is drawn from a column without runs, and keeps its frame, is its gather. -/
theorem gather_of_drawn (hc : c.Aligned) (hseg : c.isSegmented = false) {offsets : List Nat}
    (h : Drawn c (offsets.map some) d) (hframe : d.frame = c.frame) :
    c.gather offsets = .ok d := by
  have hi : InRange c.size offsets := fun i hmem =>
    h.sourcesInRange i (List.mem_map_of_mem hmem)
  obtain ⟨d', hd', -⟩ := exists_gathered hc hi
  have hframe' := frame_of_gather hseg hd'
  have hseg' := isSegmented_of_layout hseg (congrArg (·.profile.layout?) hframe')
  rw [hd', (drawn_of_gather hc hd').eq h hseg' (hframe'.trans hframe.symm)]

theorem gatherOptional_of_drawn (hc : c.Aligned) (hseg : c.isSegmented = false)
    {offsets : List (Option Nat)} (h : Drawn c offsets d) (hframe : d.frame = c.frame.nullable) :
    c.gatherOptional offsets = .ok d := by
  obtain ⟨d', hd', -⟩ := exists_gatheredOptional hc hseg h.sourcesInRange
  have hframe' := frame_of_gatherOptional hd'
  have hseg' := isSegmented_of_layout hseg (congrArg (·.profile.layout?) hframe')
  rw [hd', (drawn_of_gatherOptional hc hd').eq h hseg' (hframe'.trans hframe.symm)]

/-! ## Two gathers -/

section

variable {p q : List Nat} {first second : List (Option Nat)}

theorem gather_gather (hc : c.Aligned) (h : c.gather p = .ok d) (h' : d.gather q = .ok e) :
    ∃ r, Rows.gather p q = .ok r ∧ c.gather r = .ok e := by
  -- runs are gone after the first gather, and make no difference to it
  rw [← gather_flattened] at h
  obtain ⟨r, hr⟩ := exists_gather_iff.2 (size_of_gather h ▸ inRange_of_gather h')
  refine ⟨r, hr, ?_⟩
  have hc' := aligned_flattened hc
  have hseg := isSegmented_flattened c
  have hd := drawn_of_gather hc' h
  have he := hd.trans (drawn_of_gather hd.aligned h')
  have hframe := frame_of_gather hseg h
  have hseg' := isSegmented_of_layout hseg (congrArg (·.profile.layout?) hframe)
  have hframe' := frame_of_gather hseg' h'
  rw [through_map_some hr] at he
  rw [← gather_flattened]
  exact gather_of_drawn hc' hseg he (hframe'.trans hframe)

theorem gatherOptional_gather (hc : c.Aligned) (h : c.gatherOptional first = .ok d)
    (h' : d.gather q = .ok e) : c.gatherOptional (through first (q.map some)) = .ok e := by
  have hseg := isSegmented_of_gatherOptional h
  have hd := drawn_of_gatherOptional hc h
  have hframe := frame_of_gatherOptional h
  have hseg' := isSegmented_of_layout hseg (congrArg (·.profile.layout?) hframe)
  have hframe' := frame_of_gather hseg' h'
  exact gatherOptional_of_drawn hc hseg (hd.trans (drawn_of_gather hd.aligned h'))
    (hframe'.trans hframe)

theorem gather_gatherOptional (hc : c.Aligned) (hseg : c.isSegmented = false)
    (h : c.gather p = .ok d) (h' : d.gatherOptional second = .ok e) :
    c.gatherOptional (through (p.map some) second) = .ok e := by
  have hd := drawn_of_gather hc h
  refine gatherOptional_of_drawn hc hseg (hd.trans (drawn_of_gatherOptional hd.aligned h')) ?_
  rw [frame_of_gatherOptional h', frame_of_gather hseg h]

theorem gatherOptional_gatherOptional (hc : c.Aligned) (h : c.gatherOptional first = .ok d)
    (h' : d.gatherOptional second = .ok e) :
    c.gatherOptional (through first second) = .ok e := by
  have hd := drawn_of_gatherOptional hc h
  refine gatherOptional_of_drawn hc (isSegmented_of_gatherOptional h)
    (hd.trans (drawn_of_gatherOptional hd.aligned h')) ?_
  rw [frame_of_gatherOptional h', frame_of_gatherOptional h, Frame.nullable_nullable]

theorem gather_all (hc : c.Aligned) : c.gather (List.range c.size) = .ok c.flattened := by
  rw [← size_flattened, ← gather_flattened]
  exact gather_of_drawn (aligned_flattened hc) (isSegmented_flattened c)
    (drawn_range (aligned_flattened hc)) rfl

end

/-- Gathers compose. Of a column with a bit for each row, as every column is that can be obtained
(`Obtained.aligned`), two gathers that go through are one gather by the offsets that go through both,
whether or not rows may be without a source; an optional gather after a plain one of runs is left
out, as runs have no optional gather. A gather of all rows in order gives the column itself, and of
runs the same vertices and labels without the runs. The columns are equal in every part, bitmaps and
arenas and placeholders included. -/
theorem gathers_compose (hc : c.Aligned) :
    (∀ p q d e, c.gather p = .ok d → d.gather q = .ok e →
      ∃ r, Rows.gather p q = .ok r ∧ c.gather r = .ok e) ∧
    (∀ first q d e, c.gatherOptional first = .ok d → d.gather q = .ok e →
      c.gatherOptional (through first (q.map some)) = .ok e) ∧
    (c.isSegmented = false → ∀ p second d e, c.gather p = .ok d →
      d.gatherOptional second = .ok e →
      c.gatherOptional (through (p.map some) second) = .ok e) ∧
    (∀ first second d e, c.gatherOptional first = .ok d → d.gatherOptional second = .ok e →
      c.gatherOptional (through first second) = .ok e) ∧
    (c.isSegmented = false → c.gather (List.range c.size) = .ok c) ∧
    (∀ s, c = vertex (.segmented s) →
      c.gather (List.range c.size) = .ok (vertex (.mixed ⟨s.vertices, s.labels, false⟩))) := by
  refine ⟨?plain, ?optionalPlain, ?plainOptional, ?optional, ?all, ?allRuns⟩
  case plain => exact fun p q d e => gather_gather hc
  case optionalPlain => exact fun first q d e => gatherOptional_gather hc
  case plainOptional => exact fun hseg p second d e => gather_gatherOptional hc hseg
  case optional => exact fun first second d e => gatherOptional_gatherOptional hc
  case all =>
    intro hseg
    rw [gather_all hc, flattened_eq hseg]
  case allRuns =>
    intro s hs
    rw [gather_all hc, hs]
    rfl

theorem gathers_compose_mixedSample : ∃ d e,
    mixedSample.gatherOptional [some 2, none, some 0] = .ok d ∧ d.gather [2, 1] = .ok e ∧
      mixedSample.gatherOptional [some 0, none] = .ok e := by
  obtain ⟨-, hoptionalPlain, -⟩ := gathers_compose wellMade_mixedSample.aligned
  exact ⟨_, _, rfl, rfl, hoptionalPlain [some 2, none, some 0] [2, 1] _ _ rfl rfl⟩

end ColumnFlow.Column
