import ColumnFlow.Proofs.Column.Parts
import ColumnFlow.Proofs.Rows.Composition

/-!
# Gathers of appended columns

To gather from two columns and append the results is to append the columns and gather from that
(`Column.gather_distributes`), although vertices of two labels are written under mixed labels after
the gathers on one side, and before the gather on the other.
-/

namespace ColumnFlow.Column

open Rows

variable {a a' b b' ab left right : Column} {id id' : ArenaId} {p q : List Nat}

theorem normalCells_of_gather (ha : a.Aligned) (h : a.gather p = .ok a') :
    Rows.gather a.normalCells p = .ok a'.normalCells := by
  rw [normalCells, normalCells, (gathered_of_gather ha h).optional_eq]
  exact gather_map _ (cells_of_gather h)

/-- The cells of the appended gathers are gathered from the appended columns: a cell is written anew
by what it is, not by where it stands. -/
theorem gather_cells_of_append (ha : a.Aligned) (hb : b.Aligned) (hp : a.gather p = .ok a')
    (hq : b.gather q = .ok b') (hab : a.append id b = .ok ab)
    (hleft : a'.append id' b' = .ok left) (hlayout : left.layout? = ab.layout?) :
    Rows.gather ab.cells (besides a.size p q) = .ok left.cells := by
  rw [cells_of_append hab, cells_of_append hleft, hlayout]
  split
  · have hlength : a.normalCells.length = a.size := by rw [normalCells, List.length_map, length_cells]
    rw [← hlength]
    exact gather_append (normalCells_of_gather ha hp) (normalCells_of_gather hb hq)
  · rw [← length_cells]
    exact gather_append (cells_of_gather hp) (cells_of_gather hq)

theorem gather_bits_of_append (ha : a.Aligned) (hp : a.gather p = .ok a')
    (hq : b.gather q = .ok b') (hab : a.append id b = .ok ab)
    (hleft : a'.append id' b' = .ok left) :
    Rows.gather ab.bits (besides a.size p q) = .ok left.bits := by
  rw [bits_of_append ha hab, bits_of_append (gathered_of_gather ha hp).aligned hleft,
    ← Bitmap.length_presence (aligned_iff.1 ha)]
  exact gather_append (bits_of_gather hp) (bits_of_gather hq)

/-- Gathers distribute over appends. If two columns can be appended, any rows of the one and any rows
of the other can be gathered and appended, and the result is the gather of these rows from the
appended columns, arenas aside. Columns have a bit for each row, as every column has that can be
obtained (`Obtained.aligned`), but rows may be any, the reserved vertex included. -/
theorem gather_distributes (ha : a.Aligned) (hb : b.Aligned) (h : a.append id b = .ok ab)
    (hp : InRange a.size p) (hq : InRange b.size q) (id' : ArenaId) :
    ∃ a' b' left right, a.gather p = .ok a' ∧ b.gather q = .ok b' ∧
      a'.append id' b' = .ok left ∧ ab.gather (besides a.size p q) = .ok right ∧
      left.withArena none = right.withArena none := by
  have hjoins := exists_append_iff_joins.1 ⟨ab, h⟩
  -- both gathers keep the frames, so their results can be appended as the columns can
  obtain ⟨a', ha', hga⟩ := exists_gathered ha hp
  obtain ⟨b', hb', hgb⟩ := exists_gathered hb hq
  have hframea : a'.frame = a.frame := frame_of_gather (isSegmented_of_joins hjoins).1 ha'
  have hframeb : b'.frame = b.frame := frame_of_gather (isSegmented_of_joins hjoins).2 hb'
  obtain ⟨left, hleft⟩ : ∃ left, a'.append id' b' = .ok left := by
    rw [exists_append_iff_joins, hframea, hframeb]
    exact hjoins
  have hsize : ab.size = a.size + b.size := size_of_append h
  obtain ⟨right, hright, hgr⟩ :=
    exists_gathered (aligned_of_append ha hb h) (hsize ▸ inRange_besides hp hq)
  have hframe : left.frame = ab.frame := by
    rw [frame_of_append hleft, frame_of_append h, hframea, hframeb]
  refine ⟨a', b', left, right, ha', hb', hleft, hright, ?_⟩
  refine withArena_eq (aligned_of_append hga.aligned hgb.aligned hleft) hgr.aligned
    (isSegmented_of_append hleft) ?_ ?_ ?_ none
  · rw [hframe, frame_of_gather (isSegmented_of_append h) hright]
  · have hcells := gather_cells_of_append ha hb ha' hb' h hleft (congrArg (·.profile.layout?) hframe)
    exact Except.ok.inj (hcells.symm.trans (cells_of_gather hright))
  · have hbits := gather_bits_of_append ha ha' hb' h hleft
    exact Except.ok.inj (hbits.symm.trans (bits_of_gather hright))

/-- A vertex and an absent row, under one label. -/
def partSample : Column := vertex (.single ⟨1, [5, noVertexId], true⟩)

/-- A vertex and the reserved vertex, which is not absent here, under another label. -/
def fullSample : Column := vertex (.single ⟨2, [6, noVertexId], false⟩)

theorem gather_distributes_twoLabels :
    ∃ ab, partSample.append 0 fullSample = .ok ab ∧
      ∃ a' b' left right, partSample.gather [1, 0, 1] = .ok a' ∧ fullSample.gather [1] = .ok b' ∧
        a'.append 1 b' = .ok left ∧ ab.gather [1, 0, 1, 3] = .ok right ∧
        left.withArena none = right.withArena none := by
  have ha : partSample.Aligned := trivial
  have hb : fullSample.Aligned := trivial
  obtain ⟨ab, hab⟩ : ∃ ab, partSample.append 0 fullSample = .ok ab := ⟨_, rfl⟩
  exact ⟨ab, hab, gather_distributes ha hb hab (by decide) (by decide) 1⟩

end ColumnFlow.Column
