import ColumnFlow.Proofs.Column.Parts
import ColumnFlow.Proofs.Column.RowSemantics

/-!
# Appends of three columns

Of three columns it makes no difference which two are appended first (`Column.append_associative`).
Vertices may come under mixed labels in the first append or in the second, and their absent rows
are then written anew. In marked columns this makes no difference, as whatever is written a second
time stays as it is.
-/

namespace ColumnFlow.Column

open Rows

variable {a b c d e ab bc left right : Column} {id id₁ id₂ id₃ id₄ : ArenaId}

/-! ## Cells written anew -/

theorem normalCell_toValue (optional : Bool) (t : ScalarType) (cell : t.Cell) :
    normalCell optional (t.toValue cell) = t.toValue cell := by
  cases t <;> rfl

theorem map_normalCell_values (optional : Bool) (s : Storage) :
    s.values.map (normalCell optional) = s.values := by
  cases s with
  | scalars t cells =>
    rw [Storage.values, List.map_map]
    exact List.map_congr_left fun cell _ => normalCell_toValue optional t cell
  | lists itemType cells =>
    rw [Storage.values, List.map_map]
    rfl

/-- If no present row is the reserved vertex, it does not matter whether rows may be absent. -/
theorem Real.normalCells_eq (h : c.Real) : c.normalCells = c.cells.map (normalCell true) := by
  cases c with
  | vertex c =>
    rw [normalCells_vertex, VertexColumn.normalized_eq, VertexColumn.Real.contents_eq h, cells,
      List.map_map, List.map_map, List.map_map]
    rfl
  | edge c | path c =>
    rw [normalCells, cells, List.map_map, List.map_map]
    rfl
  | value c | optionalValue c =>
    rw [normalCells, cells, map_normalCell_values, map_normalCell_values]

theorem normalCell_normalCell (v : Value) :
    normalCell true (normalCell true v) = normalCell true v := by
  cases v with
  | vertex v =>
    have habsent : Vertex.absent.isNone = true := Vertex.isNone_none _
    cases h : v.isNone <;> simp [normalCell, VertexColumn.meaning, h, habsent]
  | _ => rfl

/-- Written anew, the cells of an appended column are those of both columns written anew. -/
theorem normal_of_append (hc : c.Real) (hd : d.Real) (h : c.append id d = .ok e) :
    e.cells.map (normalCell true) =
      c.cells.map (normalCell true) ++ d.cells.map (normalCell true) := by
  rw [cells_of_append h]
  split
  · have hidem : normalCell true ∘ normalCell true = normalCell true :=
      funext normalCell_normalCell
    rw [hc.normalCells_eq, hd.normalCells_eq, List.map_append, List.map_map, List.map_map, hidem]
  · rw [List.map_append]

/-! ## Three columns -/

section

variable (hab : a.append id₁ b = .ok ab) (hleft : ab.append id₂ c = .ok left)
  (hbc : b.append id₃ c = .ok bc) (hright : a.append id₄ bc = .ok right)

include hab hleft hbc hright

theorem frame_assoc : left.frame = right.frame := by
  rw [frame_of_append hleft, frame_of_append hab, frame_of_append hright, frame_of_append hbc,
    Frame.join_assoc]

/-- Under mixed labels all cells were written anew, some of them twice; otherwise none was. -/
theorem cells_assoc (ha : a.Real) (hb : b.Real) (hc : c.Real) (hab' : ab.Real) (hbc' : bc.Real) :
    left.cells = right.cells := by
  have hframe := frame_assoc hab hleft hbc hright
  have hlayout : left.layout? = right.layout? := congrArg (·.profile.layout?) hframe
  rw [cells_of_append hleft, cells_of_append hright, hlayout]
  split
  · rw [hab'.normalCells_eq, hc.normalCells_eq, ha.normalCells_eq, hbc'.normalCells_eq,
      normal_of_append ha hb hab, normal_of_append hb hc hbc, List.append_assoc]
  · next hplain =>
    have hjoin : left.layout? = joinLayouts ab.layout? c.layout? :=
      congrArg (·.profile.layout?) (frame_of_append hleft)
    have hjoin' : right.layout? = joinLayouts a.layout? bc.layout? :=
      congrArg (·.profile.layout?) (frame_of_append hright)
    have hab' : ab.layout? ≠ some .mixed := fun hmixed =>
      hplain (hlayout.symm.trans (hjoin.trans (joinLayouts_eq_mixed (.inl hmixed))))
    have hbc' : bc.layout? ≠ some .mixed := fun hmixed =>
      hplain (hjoin'.trans (joinLayouts_eq_mixed (.inr hmixed)))
    rw [cells_of_append hab, if_neg hab', cells_of_append hbc, if_neg hbc', List.append_assoc]

theorem withArena_assoc (ha : a.Aligned) (hb : b.Aligned) (hc : c.Aligned) (hma : a.Marked)
    (hmb : b.Marked) (hmc : c.Marked) (arena : Option Arena) :
    left.withArena arena = right.withArena arena := by
  have hab' := aligned_of_append ha hb hab
  have hbc' := aligned_of_append hb hc hbc
  have hcells := cells_assoc hab hleft hbc hright hma.real hmb.real hmc.real
    (appended_of_append ha hma hmb hab).marked.real (appended_of_append hb hmb hmc hbc).marked.real
  refine withArena_eq (aligned_of_append hab' hc hleft) (aligned_of_append ha hbc' hright)
    (isSegmented_of_append hleft) (frame_assoc hab hleft hbc hright) hcells ?_ arena
  rw [bits_of_append hab' hleft, bits_of_append ha hab, bits_of_append ha hright,
    bits_of_append hb hbc, List.append_assoc]

end

theorem exists_append_left :
    (∃ left, (a.append id₁ b >>= fun ab => ab.append id₂ c) = .ok left) ↔
      a.frame.Joins b.frame ∧ (a.frame.join b.frame).Joins c.frame := by
  have hfirst : (∃ ab, a.append id₁ b = .ok ab) ↔ a.frame.Joins b.frame := exists_append_iff_joins
  rw [← hfirst]
  constructor
  · intro hok
    obtain ⟨left, h⟩ := hok
    obtain ⟨ab, hab, hleft⟩ := bind_eq_ok_iff.1 h
    exact ⟨⟨ab, hab⟩, frame_of_append hab ▸ exists_append_iff_joins.1 ⟨left, hleft⟩⟩
  · intro hjoins
    obtain ⟨⟨ab, hab⟩, hjoins⟩ := hjoins
    obtain ⟨left, hleft⟩ := exists_append_iff_joins.2 (frame_of_append hab ▸ hjoins)
    exact ⟨left, bind_eq_ok_iff.2 ⟨ab, hab, hleft⟩⟩

theorem exists_append_right :
    (∃ right, (b.append id₃ c >>= fun bc => a.append id₄ bc) = .ok right) ↔
      b.frame.Joins c.frame ∧ a.frame.Joins (b.frame.join c.frame) := by
  have hfirst : (∃ bc, b.append id₃ c = .ok bc) ↔ b.frame.Joins c.frame := exists_append_iff_joins
  rw [← hfirst]
  constructor
  · intro hok
    obtain ⟨right, h⟩ := hok
    obtain ⟨bc, hbc, hright⟩ := bind_eq_ok_iff.1 h
    exact ⟨⟨bc, hbc⟩, frame_of_append hbc ▸ exists_append_iff_joins.1 ⟨right, hright⟩⟩
  · intro hjoins
    obtain ⟨⟨bc, hbc⟩, hjoins⟩ := hjoins
    obtain ⟨right, hright⟩ := exists_append_iff_joins.2 (frame_of_append hbc ▸ hjoins)
    exact ⟨right, bind_eq_ok_iff.2 ⟨bc, hbc, hright⟩⟩

/-- Appending is associative, for all columns that can be made without pushing the reserved vertex.
To append the third column to the first two faults exactly if it faults to append the last two to
the first, and otherwise the results are equal in every part but the arena: kind and
representation, labels, item type, bitmap, and all cells with the placeholders of absent rows. -/
theorem append_associative (ha : a.WellMade) (hb : b.WellMade) (hc : c.WellMade)
    (id₁ id₂ id₃ id₄ : ArenaId) :
    ((∃ fault, (a.append id₁ b >>= fun ab => ab.append id₂ c) = .error fault) ↔
      ∃ fault, (b.append id₃ c >>= fun bc => a.append id₄ bc) = .error fault) ∧
    ∀ left right, (a.append id₁ b >>= fun ab => ab.append id₂ c) = .ok left →
      (b.append id₃ c >>= fun bc => a.append id₄ bc) = .ok right →
      left.withArena none = right.withArena none := by
  constructor
  · rw [exists_error_iff, exists_error_iff, exists_append_left, exists_append_right,
      Frame.joins_assoc]
  · intro left right h h'
    obtain ⟨ab, hab, hleft⟩ := bind_eq_ok_iff.1 h
    obtain ⟨bc, hbc, hright⟩ := bind_eq_ok_iff.1 h'
    exact withArena_assoc hab hleft hbc hright ha.aligned hb.aligned hc.aligned ha.marked hb.marked
      hc.marked none

/-- A vertex and an absent row under one label. -/
def oneLabelSample : Column := (Builder.single ⟨1, [5, noVertexId], true⟩).finish 0 none

theorem wellMade_oneLabelSample : oneLabelSample.WellMade := by
  have hb : (Builder.single (SingleVertices.empty 1 true)).Reachable
      fun v => v.isReserved = false := .fresh (.single 1 true)
  have hvertex : (Builder.single ⟨1, [5], true⟩).Reachable fun v => v.isReserved = false :=
    hb.pushVid rfl
  exact .finish (hvertex.pushNull rfl) 0 none

/-- The first two columns stay under one label in one order only. -/
theorem append_associative_mixedSample : ∃ left right,
    (oneLabelSample.append 0 oneLabelSample >>= fun ab => ab.append 1 mixedSample) = .ok left ∧
      (oneLabelSample.append 2 mixedSample >>= fun bc => oneLabelSample.append 3 bc) = .ok right ∧
      left.withArena none = right.withArena none := by
  have hone := wellMade_oneLabelSample
  obtain ⟨-, hequal⟩ := append_associative hone hone wellMade_mixedSample 0 1 2 3
  exact ⟨_, _, rfl, rfl, hequal _ _ rfl rfl⟩

end ColumnFlow.Column
