import ColumnFlow.Proofs.Column.Frame

/-!
# Columns in parts

A column is what does not depend on its rows, its frame; the cells and the presence bits of its
rows; and its arena. Gathers and appends act on each of these apart, and columns of equal parts are
equal (`Column.withArena_eq`).
-/

namespace ColumnFlow.Column

open Rows

variable {c d e : Column} {id : ArenaId}

/-- The bitmap of a column that has one. -/
def validity? : Column → Option Bitmap
  | edge c => c.validity
  | path c => c.validity
  | optionalValue c => some c.validity
  | vertex _ | value _ => none

/-- The bits of the rows, ones where there is no bitmap. -/
def bits (c : Column) : List Bool := Bitmap.presence c.size c.validity?

theorem aligned_iff : c.Aligned ↔ Bitmap.Aligned c.size c.validity? := by
  cases c with
  | vertex c | value c => exact iff_of_true trivial (Bitmap.aligned_none _)
  | edge c | optionalValue c | path c => exact Iff.rfl

/-- Vertices have no bitmap; other columns have one if they are optional. -/
theorem isSome_validity? (c : Column) :
    c.validity?.isSome = (decide (c.kind ≠ .vertex) && c.optional) := by
  cases c <;> rfl

/-! ## Equal parts -/

/-- The frame tells the label of vertices that are stored by id alone. -/
theorem eq_of_vertices {c d : VertexColumn} (hseg : c.isSegmented = false)
    (hframe : (vertex c).frame = (vertex d).frame) (h : c.vertices = d.vertices) : c = d := by
  rcases c with ⟨label, vids, optional⟩ | s | ⟨vs, labels, optional⟩ <;>
    rcases d with ⟨label', vids', optional'⟩ | t | ⟨vs', labels', optional'⟩
  case single.single =>
    cases hframe
    obtain rfl : vids = vids' := (List.map_inj_right fun _ _ hv => (Vertex.mk.inj hv).2).1 h
    rfl
  case mixed.mixed =>
    cases hframe
    cases h
    rfl
  case segmented.single | segmented.segmented | segmented.mixed => cases hseg
  all_goals cases hframe

/-- Frame, cells and bits tell all of a column without runs, but for its arena. -/
theorem withArena_eq (hc : c.Aligned) (hd : d.Aligned) (hseg : c.isSegmented = false)
    (hframe : c.frame = d.frame) (hcells : c.cells = d.cells) (hbits : c.bits = d.bits)
    (arena : Option Arena) : c.withArena arena = d.withArena arena := by
  have hprofile : c.profile = d.profile := congrArg Frame.profile hframe
  have hkind : c.kind = d.kind := congrArg Profile.kind hprofile
  have helem : c.elemType = d.elemType := congrArg Profile.elemType hprofile
  have hoptional : c.optional = d.optional := congrArg Profile.optional hprofile
  have hitem : c.itemType = d.itemType := congrArg Frame.itemType hframe
  have hsize : c.size = d.size := by rw [← length_cells, ← length_cells, hcells]
  have hvalidity : c.validity? = d.validity? := by
    rw [aligned_iff] at hc hd
    rw [bits, bits, ← hsize] at hbits
    refine hc.ext (hsize ▸ hd) ?_ hbits
    rw [isSome_validity?, isSome_validity?, hkind, hoptional]
  -- of columns of one kind, frame and cells tell the vertices, the storage or the records
  cases c <;> cases d
  case vertex.vertex c d =>
    rw [eq_of_vertices hseg hframe ((List.map_inj_right fun _ _ => Value.vertex.inj).1 hcells)]
  case edge.edge c d =>
    obtain ⟨xs, p⟩ := c
    obtain ⟨ys, q⟩ := d
    obtain rfl : xs = ys := (List.map_inj_right fun _ _ => Value.edge.inj).1 hcells
    obtain rfl : p = q := hvalidity
    rfl
  case value.value c d =>
    obtain ⟨xs, a⟩ := c
    obtain ⟨ys, b⟩ := d
    obtain rfl : xs = ys := Storage.ext helem hitem hcells
    rfl
  case optionalValue.optionalValue c d =>
    obtain ⟨⟨xs, a⟩, p⟩ := c
    obtain ⟨⟨ys, b⟩, q⟩ := d
    obtain rfl : xs = ys := Storage.ext helem hitem hcells
    obtain rfl : p = q := Option.some.inj hvalidity
    rfl
  case path.path c d =>
    obtain ⟨xs, p⟩ := c
    obtain ⟨ys, q⟩ := d
    obtain rfl : xs = ys := (List.map_inj_right fun _ _ => Value.path.inj).1 hcells
    obtain rfl : p = q := hvalidity
    rfl
  all_goals cases hkind

theorem withArena_arena (c : Column) : c.withArena c.arena = c := by
  cases c <;> rfl

/-- Frame, cells, bits and arena tell all of a column without runs. -/
theorem eq_of_parts (hc : c.Aligned) (hd : d.Aligned) (hseg : c.isSegmented = false)
    (hframe : c.frame = d.frame) (hcells : c.cells = d.cells) (hbits : c.bits = d.bits)
    (harena : c.arena = d.arena) : c = d := by
  rw [← c.withArena_arena, ← d.withArena_arena, ← harena]
  exact withArena_eq hc hd hseg hframe hcells hbits c.arena

/-! ## Gathering -/

/-- What is stored as the bit of a row without a source. Vertices have no bits to clear. -/
def absentBit : Column → Bool
  | vertex _ => true
  | edge _ | value _ | optionalValue _ | path _ => false

/-- The column with its vertices taken out of their runs. -/
def flattened : Column → Column
  | vertex (.segmented s) => vertex (.mixed ⟨s.vertices, s.labels, false⟩)
  | c => c

theorem flattened_eq (h : c.isSegmented = false) : c.flattened = c := by
  rcases c with (s | s | m) | c | c | c | c
  case vertex.segmented => cases h
  all_goals rfl

theorem isSegmented_flattened (c : Column) : c.flattened.isSegmented = false := by
  rcases c with (s | s | m) | c | c | c | c <;> rfl

theorem aligned_flattened (h : c.Aligned) : c.flattened.Aligned := by
  rcases c with (s | s | m) | c | c | c | c
  case vertex.segmented => trivial
  all_goals exact h

/-- Runs make no difference to a gather. -/
theorem gather_flattened (c : Column) (offsets : List Nat) :
    c.flattened.gather offsets = c.gather offsets := by
  rcases c with (s | s | m) | c | c | c | c <;> rfl

theorem size_flattened (c : Column) : c.flattened.size = c.size := by
  rcases c with (s | s | m) | c | c | c | c
  case vertex.segmented => exact VertexColumn.length_vertices (.segmented s)
  all_goals rfl

theorem validity_of_gather {offsets : List Nat} (h : c.gather offsets = .ok d) :
    c.validity?.mapM (Bitmap.gather · offsets) = .ok d.validity? := by
  cases c with
  | vertex c | value c =>
    obtain ⟨d, -, rfl⟩ := map_eq_ok_iff.1 h
    rfl
  | edge c | path c =>
    obtain ⟨d, hd, rfl⟩ := map_eq_ok_iff.1 h
    obtain ⟨cells, -, hd⟩ := bind_eq_ok_iff.1 hd
    obtain ⟨validity, hvalidity, ⟨⟩⟩ := bind_eq_ok_iff.1 hd
    exact hvalidity
  | optionalValue c =>
    obtain ⟨d, hd, rfl⟩ := map_eq_ok_iff.1 h
    obtain ⟨values, -, hd⟩ := bind_eq_ok_iff.1 hd
    obtain ⟨validity, hvalidity, ⟨⟩⟩ := bind_eq_ok_iff.1 hd
    exact map_eq_ok_iff.2 ⟨validity, hvalidity, rfl⟩

theorem bits_of_gather {offsets : List Nat} (h : c.gather offsets = .ok d) :
    Rows.gather c.bits offsets = .ok d.bits := by
  have hbits := (Bitmap.presence_of_gather (inRange_of_gather h) (validity_of_gather h)).1
  rw [← size_of_gather h] at hbits
  exact hbits

theorem bits_of_gatherOptional {offsets : List (Option Nat)} (h : c.gatherOptional offsets = .ok d) :
    Rows.gatherOptional c.absentBit c.bits offsets = .ok d.bits := by
  have hi := inRange_of_gatherOptional h
  have hsize := size_of_gatherOptional h
  cases c with
  | vertex c =>
    obtain ⟨d, hd, rfl⟩ := map_eq_ok_iff.1 h
    rw [bits, bits, hsize]
    exact gatherOptional_replicate true hi
  | edge c | path c =>
    obtain ⟨d, hd, rfl⟩ := map_eq_ok_iff.1 h
    obtain ⟨cells, -, hd⟩ := bind_eq_ok_iff.1 hd
    obtain ⟨validity, hvalidity, ⟨⟩⟩ := bind_eq_ok_iff.1 hd
    exact Bitmap.presence_of_gatherOptional hi hvalidity
  | value c | optionalValue c =>
    obtain ⟨d, hd, rfl⟩ := map_eq_ok_iff.1 h
    obtain ⟨storage, -, hd⟩ := bind_eq_ok_iff.1 hd
    obtain ⟨validity, hvalidity, ⟨⟩⟩ := bind_eq_ok_iff.1 hd
    exact Bitmap.presence_of_gatherOptional hi hvalidity

theorem frame_of_gather (hseg : c.isSegmented = false) {offsets : List Nat}
    (h : c.gather offsets = .ok d) : d.frame = c.frame := by
  cases c with
  | vertex c =>
    obtain ⟨d, hd, rfl⟩ := map_eq_ok_iff.1 h
    cases c with
    | segmented s => cases hseg
    | single s | mixed m =>
      obtain ⟨vs, -, ⟨⟩⟩ := bind_eq_ok_iff.1 hd
      rfl
  | edge c =>
    obtain ⟨d, -, rfl⟩ := map_eq_ok_iff.1 h
    have hsome : d.validity.isSome = c.validity.isSome :=
      (Bitmap.presence_of_gather (inRange_of_gather h) (validity_of_gather h)).2
    rw [frame_edge, frame_edge, hsome]
  | path c =>
    obtain ⟨d, -, rfl⟩ := map_eq_ok_iff.1 h
    have hsome : d.validity.isSome = c.validity.isSome :=
      (Bitmap.presence_of_gather (inRange_of_gather h) (validity_of_gather h)).2
    rw [frame_path, frame_path, hsome]
  | value c =>
    obtain ⟨d, hd, rfl⟩ := map_eq_ok_iff.1 h
    have htypes := Storage.sameTypes_of_gather (ValueColumn.storage_of_gather hd)
    rw [frame_value, frame_value, htypes.elemType_eq, htypes.itemType_eq]
  | optionalValue c =>
    obtain ⟨d, hd, rfl⟩ := map_eq_ok_iff.1 h
    have htypes := Storage.sameTypes_of_gather (OptionalValueColumn.storage_of_gather hd)
    rw [frame_optionalValue, frame_optionalValue, htypes.elemType_eq, htypes.itemType_eq]

theorem frame_of_gatherOptional {offsets : List (Option Nat)} (h : c.gatherOptional offsets = .ok d) :
    d.frame = c.frame.nullable := by
  cases c with
  | vertex c =>
    obtain ⟨d, hd, rfl⟩ := map_eq_ok_iff.1 h
    cases c with
    | segmented s => cases hd
    | single s | mixed m =>
      obtain ⟨vs, -, ⟨⟩⟩ := bind_eq_ok_iff.1 hd
      rfl
  | edge c | path c =>
    obtain ⟨d, hd, rfl⟩ := map_eq_ok_iff.1 h
    obtain ⟨cells, -, hd⟩ := bind_eq_ok_iff.1 hd
    obtain ⟨validity, -, ⟨⟩⟩ := bind_eq_ok_iff.1 hd
    rfl
  | value c =>
    obtain ⟨d, hd, rfl⟩ := map_eq_ok_iff.1 h
    have htypes := Storage.sameTypes_of_gatherOptional (ValueColumn.storage_of_gatherOptional hd)
    rw [frame_optionalValue, frame_value, htypes.elemType_eq, htypes.itemType_eq]
    rfl
  | optionalValue c =>
    obtain ⟨d, hd, rfl⟩ := map_eq_ok_iff.1 h
    have htypes :=
      Storage.sameTypes_of_gatherOptional (OptionalValueColumn.storage_of_gatherOptional hd)
    rw [frame_optionalValue, frame_optionalValue, htypes.elemType_eq, htypes.itemType_eq]
    rfl

/-- Gathers keep the arena and what is stored for rows without a source. -/
structure SameAbsence (c d : Column) : Prop where
  arena_eq : d.arena = c.arena
  placeholder_eq : d.placeholder = c.placeholder
  absentBit_eq : d.absentBit = c.absentBit

theorem sameAbsence_of_gather {offsets : List Nat} (h : c.gather offsets = .ok d) :
    SameAbsence c d := by
  cases c with
  | vertex c =>
    obtain ⟨d, hd, rfl⟩ := map_eq_ok_iff.1 h
    exact ⟨rfl, congrArg Value.vertex (VertexColumn.gathered_of_gather hd).placeholder_eq, rfl⟩
  | edge c | path c =>
    obtain ⟨d, -, rfl⟩ := map_eq_ok_iff.1 h
    exact ⟨rfl, rfl, rfl⟩
  | value c =>
    obtain ⟨d, hd, rfl⟩ := map_eq_ok_iff.1 h
    obtain ⟨storage, hstorage, ⟨⟩⟩ := bind_eq_ok_iff.1 hd
    exact ⟨rfl, (Storage.sameTypes_of_gather hstorage).placeholder_eq, rfl⟩
  | optionalValue c =>
    obtain ⟨d, hd, rfl⟩ := map_eq_ok_iff.1 h
    obtain ⟨values, hvalues, hd⟩ := bind_eq_ok_iff.1 hd
    obtain ⟨storage, hstorage, ⟨⟩⟩ := bind_eq_ok_iff.1 hvalues
    obtain ⟨validity, -, ⟨⟩⟩ := bind_eq_ok_iff.1 hd
    exact ⟨rfl, (Storage.sameTypes_of_gather hstorage).placeholder_eq, rfl⟩

theorem sameAbsence_of_gatherOptional {offsets : List (Option Nat)}
    (h : c.gatherOptional offsets = .ok d) : SameAbsence c d := by
  cases c with
  | vertex c =>
    obtain ⟨d, hd, rfl⟩ := map_eq_ok_iff.1 h
    have hg := (VertexColumn.gatheredOptional_of_gatherOptional hd).2
    exact ⟨rfl, congrArg Value.vertex hg.placeholder_eq, rfl⟩
  | edge c | path c =>
    obtain ⟨d, -, rfl⟩ := map_eq_ok_iff.1 h
    exact ⟨rfl, rfl, rfl⟩
  | value c | optionalValue c =>
    obtain ⟨d, hd, rfl⟩ := map_eq_ok_iff.1 h
    obtain ⟨storage, hstorage, hd⟩ := bind_eq_ok_iff.1 hd
    obtain ⟨validity, -, ⟨⟩⟩ := bind_eq_ok_iff.1 hd
    exact ⟨rfl, (Storage.sameTypes_of_gatherOptional hstorage).placeholder_eq, rfl⟩

/-! ## Appending -/

theorem exists_append_iff_joins :
    (∃ e, c.append id d = .ok e) ↔ c.frame.Joins d.frame := by
  rw [exists_append_iff, alike_iff, isSegmented_eq, isSegmented_eq, decide_eq_false_iff_not,
    decide_eq_false_iff_not]
  constructor
  · intro h
    obtain ⟨⟨hkind, helem⟩, ⟨hc, hd⟩, hitems⟩ := h
    exact ⟨hkind, helem, hc, hd, hitems⟩
  · intro h
    exact ⟨⟨h.kind_eq, h.elemType_eq⟩, ⟨h.left, h.right⟩, h.items⟩

theorem isSegmented_of_joins (h : c.frame.Joins d.frame) :
    c.isSegmented = false ∧ d.isSegmented = false := by
  rw [isSegmented_eq, isSegmented_eq, decide_eq_false_iff_not, decide_eq_false_iff_not]
  exact ⟨h.left, h.right⟩

theorem frame_of_append (h : c.append id d = .ok e) : e.frame = c.frame.join d.frame := by
  cases appendsTo_of_append h with
  | @vertex c d e he =>
    rcases c with s | s | m <;> rcases d with t | t | n
    case single.single =>
      by_cases hlabel : s.label = t.label
      · cases (if_pos hlabel).symm.trans he
        simp [frame_single, Frame.join, joinLayouts, joinItemTypes, hlabel]
      · cases (if_neg hlabel).symm.trans he
        simp [frame_single, frame_mixed, Frame.join, joinLayouts, joinItemTypes, hlabel,
          VertexColumn.append.mix, VertexColumn.labels, VertexColumn.optional]
    case segmented.single | segmented.segmented | segmented.mixed | single.segmented |
      mixed.segmented => cases he
    case single.mixed | mixed.single | mixed.mixed =>
      cases he
      rfl
  | edge c d =>
    have hsome : (c.append d).validity.isSome = _ := RecordColumn.optional_append c d
    rw [frame_edge, frame_edge, frame_edge, Frame.join_of_no_layout, hsome]
    rfl
  | path c d =>
    have hsome : (c.append d).validity.isSome = _ := RecordColumn.optional_append c d
    rw [frame_path, frame_path, frame_path, Frame.join_of_no_layout, hsome]
    rfl
  | value he =>
    obtain ⟨helem, hitem⟩ := Storage.types_of_append (ValueColumn.storage_of_append he)
    rw [frame_value, frame_value, frame_value, Frame.join_of_no_layout, helem, hitem, Bool.or_self]
  | optionalValue he =>
    obtain ⟨helem, hitem⟩ := Storage.types_of_append
      (ValueColumn.storage_of_append (OptionalValueColumn.values_of_append he))
    rw [frame_optionalValue, frame_optionalValue, frame_optionalValue, Frame.join_of_no_layout,
      helem, hitem, Bool.or_self]

theorem isSegmented_of_append (h : c.append id d = .ok e) : e.isSegmented = false := by
  rw [isSegmented_eq, frame_of_append h, decide_eq_false_iff_not]
  exact joinLayouts_ne_segmented (exists_append_iff_joins.1 ⟨e, h⟩).left

/-- The cell of a row of mixed labels, with one placeholder for all absent rows. -/
def normalCell (optional : Bool) : Value → Value
  | .vertex v => .vertex ((VertexColumn.meaning optional v).getD Vertex.absent)
  | v => v

/-- The cells as they are stored under mixed labels. -/
def normalCells (c : Column) : List Value := c.cells.map (normalCell c.optional)

theorem normalCells_vertex (c : VertexColumn) :
    (vertex c).normalCells = c.normalized.map .vertex := by
  rw [VertexColumn.normalized_eq, VertexColumn.contents, List.map_map, List.map_map, normalCells,
    cells, List.map_map]
  rfl

/-- The cells of both columns. They are written anew where vertices come under mixed labels. -/
theorem cells_of_append (h : c.append id d = .ok e) :
    e.cells = if e.layout? = some .mixed then c.normalCells ++ d.normalCells
      else c.cells ++ d.cells := by
  cases appendsTo_of_append h with
  | vertex he =>
    rcases VertexColumn.append_cases he with rfl | ⟨label, xs, ys, p, q, rfl, rfl, rfl⟩
    · rw [if_pos (by rfl), normalCells_vertex, normalCells_vertex, ← List.map_append]
      rfl
    · rw [if_neg (by simp [layout?])]
      simp [cells, VertexColumn.vertices]
  | edge | path => exact List.map_append
  | value he => exact ValueColumn.values_of_append he
  | optionalValue he =>
    exact ValueColumn.values_of_append (OptionalValueColumn.values_of_append he)

theorem size_of_append (h : c.append id d = .ok e) : e.size = c.size + d.size := by
  rw [← length_cells, cells_of_append h]
  split <;> simp [normalCells]

theorem bits_of_append (hc : c.Aligned) (h : c.append id d = .ok e) :
    e.bits = c.bits ++ d.bits := by
  have hsize := size_of_append h
  cases appendsTo_of_append h with
  | vertex | value =>
    rw [bits, hsize]
    exact Bitmap.presence_append _ _ none none
  | edge | path =>
    rw [bits, hsize]
    exact Bitmap.presence_append _ _ _ _
  | @optionalValue c d e he =>
    obtain ⟨values, -, ⟨⟩⟩ := bind_eq_ok_iff.1 he
    exact (hc c.validity rfl).1.toList_extend _

end ColumnFlow.Column
