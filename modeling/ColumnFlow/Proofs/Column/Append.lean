import ColumnFlow.Proofs.Column.Contents

/-!
# Appended columns and the numbers of rows

Two columns can be appended if they are of one kind and type, have no runs, and do not know
different types of list items; the contents are then appended. The numbers of the rows have the
pattern of the contents (`Column.exists_signatures`).
-/

namespace ColumnFlow.Column

open Rows

variable {c d e : Column} {id : ArenaId}

/-! ## Appending -/

/-- The type of the items in a column of lists, `null` while it is not known; `null` for all other
columns. -/
def itemType : Column → ElemType
  | value c => c.storage.itemType
  | optionalValue c => c.values.storage.itemType
  | vertex _ | edge _ | path _ => .null

theorem append_vertex (c d : VertexColumn) :
    (vertex c).append id (vertex d) = vertex <$> c.append d := if_pos ⟨rfl, rfl⟩

theorem append_edge (c d : EdgeColumn) : (edge c).append id (edge d) = .ok (edge (c.append d)) :=
  if_pos ⟨rfl, rfl⟩

theorem append_path (c d : PathColumn) : (path c).append id (path d) = .ok (path (c.append d)) :=
  if_pos ⟨rfl, rfl⟩

theorem append_value {c d : ValueColumn} (h : c.elemType = d.elemType) :
    (value c).append id (value d) = value <$> c.append id d := if_pos ⟨rfl, h⟩

theorem append_optionalValue {c d : OptionalValueColumn} (h : c.elemType = d.elemType) :
    (optionalValue c).append id (optionalValue d) = optionalValue <$> c.append id d :=
  if_pos ⟨rfl, h⟩

/-- Two columns of one kind, and of one type where the kind has several. -/
inductive Alike : Column → Column → Prop where
  | vertex (c d : VertexColumn) : Alike (vertex c) (vertex d)
  | edge (c d : EdgeColumn) : Alike (edge c) (edge d)
  | value (c d : ValueColumn) (h : c.elemType = d.elemType) : Alike (value c) (value d)
  | optionalValue (c d : OptionalValueColumn) (h : c.elemType = d.elemType) :
    Alike (optionalValue c) (optionalValue d)
  | path (c d : PathColumn) : Alike (path c) (path d)

theorem alike_iff : Alike c d ↔ c.kind = d.kind ∧ c.elemType = d.elemType := by
  constructor
  · intro h
    cases h with
    | vertex | edge | path => exact ⟨rfl, rfl⟩
    | value c d h | optionalValue c d h => exact ⟨rfl, h⟩
  · intro hsame
    obtain ⟨hkind, htype⟩ := hsame
    cases c <;> cases d
    case vertex.vertex c d => exact .vertex c d
    case edge.edge c d => exact .edge c d
    case value.value c d => exact .value c d htype
    case optionalValue.optionalValue c d => exact .optionalValue c d htype
    case path.path c d => exact .path c d
    all_goals cases hkind

/-- Only like columns are appended. -/
theorem alike_of_append (h : c.append id d = .ok e) : Alike c d := by
  refine alike_iff.2 (Decidable.byContradiction fun hne => ?_)
  unfold append at h
  rw [if_neg hne] at h
  cases h

/-- Columns can be appended exactly if they are alike, neither has runs, and the types of their
list items do not clash. -/
theorem exists_append_iff :
    (∃ e, c.append id d = .ok e)
      ↔ Alike c d ∧ (c.isSegmented = false ∧ d.isSegmented = false) ∧
        ¬ Storage.ItemTypesClash c.itemType d.itemType := by
  by_cases halike : Alike c d
  · rw [and_iff_right halike]
    -- only lists have item types to clash, and only vertices have runs
    have hnull : ¬ Storage.ItemTypesClash .null .null := fun h => h.1 rfl
    cases halike with
    | vertex c d =>
      rw [append_vertex, exists_map_eq_ok_iff, VertexColumn.exists_append_iff]
      exact (and_iff_left hnull).symm
    | edge c d =>
      rw [append_edge]
      exact iff_of_true ⟨_, rfl⟩ ⟨⟨rfl, rfl⟩, hnull⟩
    | value c d htype =>
      rw [append_value htype, exists_map_eq_ok_iff, ValueColumn.exists_append_iff id htype]
      exact (and_iff_right ⟨rfl, rfl⟩).symm
    | optionalValue c d htype =>
      rw [append_optionalValue htype, exists_map_eq_ok_iff,
        OptionalValueColumn.exists_append_iff id htype]
      exact (and_iff_right ⟨rfl, rfl⟩).symm
    | path c d =>
      rw [append_path]
      exact iff_of_true ⟨_, rfl⟩ ⟨⟨rfl, rfl⟩, hnull⟩
  · refine iff_of_false ?_ fun h => halike h.1
    intro hok
    obtain ⟨e, he⟩ := hok
    exact halike (alike_of_append he)

/-- What an append does, kind by kind. -/
inductive AppendsTo (id : ArenaId) : Column → Column → Column → Prop where
  | vertex {c d e : VertexColumn} (h : c.append d = .ok e) :
    AppendsTo id (vertex c) (vertex d) (vertex e)
  | edge (c d : EdgeColumn) : AppendsTo id (edge c) (edge d) (edge (c.append d))
  | value {c d e : ValueColumn} (h : c.append id d = .ok e) :
    AppendsTo id (value c) (value d) (value e)
  | optionalValue {c d e : OptionalValueColumn} (h : c.append id d = .ok e) :
    AppendsTo id (optionalValue c) (optionalValue d) (optionalValue e)
  | path (c d : PathColumn) : AppendsTo id (path c) (path d) (path (c.append d))

theorem appendsTo_of_append (h : c.append id d = .ok e) : AppendsTo id c d e := by
  cases alike_of_append h with
  | vertex c d =>
    rw [append_vertex] at h
    obtain ⟨e, he, rfl⟩ := map_eq_ok_iff.1 h
    exact .vertex he
  | edge c d =>
    cases (append_edge c d).symm.trans h
    exact .edge c d
  | value c d htype =>
    rw [append_value htype] at h
    obtain ⟨e, he, rfl⟩ := map_eq_ok_iff.1 h
    exact .value he
  | optionalValue c d htype =>
    rw [append_optionalValue htype] at h
    obtain ⟨e, he, rfl⟩ := map_eq_ok_iff.1 h
    exact .optionalValue he
  | path c d =>
    cases (append_path c d).symm.trans h
    exact .path c d

theorem aligned_of_append (hc : c.Aligned) (hd : d.Aligned) (h : c.append id d = .ok e) :
    e.Aligned := by
  cases appendsTo_of_append h with
  | vertex | value => trivial
  | edge | path => exact RecordColumn.aligned_append hc hd
  | optionalValue he => exact OptionalValueColumn.aligned_of_append hc hd he

/-- An append of marked columns keeps the rows of both. -/
structure Appended (c d e : Column) : Prop where
  marked : e.Marked
  optional_eq : e.optional = (c.optional || d.optional)
  contents_eq : e.contents = c.contents ++ d.contents

theorem appended_of_append (hc : c.Aligned) (hmc : c.Marked) (hmd : d.Marked)
    (h : c.append id d = .ok e) : Appended c d e := by
  cases appendsTo_of_append h with
  | vertex he =>
    have happ := VertexColumn.appended_of_append hmc hmd he
    refine ⟨happ.marked, happ.optional_eq, ?_⟩
    rw [contents, happ.contents_eq, List.map_append]
    rfl
  | edge c d | path c d =>
    refine ⟨trivial, RecordColumn.optional_append c d, ?_⟩
    rw [contents, RecordColumn.contents_append hc, List.map_append]
    rfl
  | value he => exact ⟨trivial, rfl, ValueColumn.contents_of_append he⟩
  | optionalValue he => exact ⟨trivial, rfl, OptionalValueColumn.contents_of_append hc he⟩

/-! ## Signatures -/

/-- Records are numbered by ordinals, and so have the pattern of what they are. -/
theorem samePattern_ordinals_map {α : Type} [DecidableEq α] {f : α → Value}
    (hf : ∀ a b, f a = f b → a = b) (rows : List (Option α)) :
    SamePattern (ordinals rows) (rows.map (Option.map f)) := by
  refine (samePattern_ordinals rows).trans (SamePattern.map_right ?_ rows)
  exact fun a b h => Option.map_injective (fun x y => hf x y) h

/-- The rows of a marked column can be numbered, and equal numbers mean equal rows. -/
theorem exists_signatures (hc : c.Aligned) (hm : c.Marked) :
    ∃ numbers, c.signatures = .ok numbers ∧ SamePattern numbers c.contents := by
  cases c with
  | vertex c =>
    refine ⟨_, rfl, (VertexColumn.samePattern_signatures hm).trans (SamePattern.map_right ?_ _)⟩
    exact fun a b h => Option.map_injective (fun x y => Value.vertex.inj) h
  | edge c =>
    exact ⟨_, RecordColumn.signatures_eq hc,
      samePattern_ordinals_map (fun _ _ => Value.edge.inj) c.contents⟩
  | value c =>
    refine ⟨_, rfl, (Storage.samePattern_signatures c.storage).trans (SamePattern.map_right ?_ _)⟩
    exact fun a b h => Option.some.inj h
  | optionalValue c =>
    exact ⟨_, OptionalValueColumn.signatures_eq hc, OptionalValueColumn.samePattern_signatures c⟩
  | path c =>
    exact ⟨_, RecordColumn.signatures_eq hc,
      samePattern_ordinals_map (fun _ _ => Value.path.inj) c.contents⟩

/-- The numbers of the rows are words, as there are no more rows than words. -/
theorem lt_wordCount_of_mem_signatures (hc : c.Aligned) (hsize : c.size ≤ wordCount)
    {numbers : List Nat} (h : c.signatures = .ok numbers) {n : Nat} (hn : n ∈ numbers) :
    n < wordCount := by
  have hordinal : ∀ {α : Type} [DecidableEq α] {rows : List (Option α)}, rows.length = c.size →
      n ∈ ordinals rows → n < wordCount := fun hrows hmem =>
    Nat.lt_of_lt_of_le (lt_length_of_mem_ordinals hmem) (hrows ▸ hsize)
  cases c with
  | vertex c =>
    cases h
    rw [VertexColumn.signatures_eq] at hn
    obtain ⟨v, -, rfl⟩ := List.mem_map.1 hn
    exact Nat.lt_trans (Vertex.signature_lt v) (by decide)
  | edge c =>
    cases (RecordColumn.signatures_eq hc).symm.trans h
    exact hordinal (RecordColumn.length_contents hc) hn
  | value c =>
    cases h
    exact Storage.lt_wordCount_of_mem_signatures hsize hn
  | optionalValue c =>
    cases (OptionalValueColumn.signatures_eq hc).symm.trans h
    refine hordinal ?_ hn
    rw [(samePattern_ordinals _).symm.length_eq, (OptionalValueColumn.samePattern_signatures c).length_eq]
    exact OptionalValueColumn.length_contents hc
  | path c =>
    cases (RecordColumn.signatures_eq hc).symm.trans h
    exact hordinal (RecordColumn.length_contents hc) hn

end ColumnFlow.Column
