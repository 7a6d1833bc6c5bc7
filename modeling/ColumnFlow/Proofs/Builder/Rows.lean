import ColumnFlow.Builder.Basic
import ColumnFlow.Proofs.Builder.Values
import ColumnFlow.Proofs.Builder.Vertices
import ColumnFlow.Proofs.Column.Contents
import ColumnFlow.Proofs.Rows.Sequence

/-!
# The rows of columns in the making

The rows of a builder are those of the column that it would be finished to. A push adds one row to
them: the value, or an absent row for null (`Builder.pushed_of_push`). The reserved vertex is no
value to be pushed: in an optional column it would read as absent.
-/

namespace ColumnFlow

open Rows

/-- Whether a value is the reserved vertex of a label. -/
def Value.isReserved : Value → Bool
  | vertex v => v.isNone
  | _ => false

/-- The row that a value makes when it is pushed: null makes an absent one. -/
def Value.toRow (v : Value) : Option Value := if v.isNull then none else some v

theorem VertexColumn.Pushed.contents_present {c d : VertexColumn} {v : Vertex}
    (h : VertexColumn.Pushed c v d) (hv : v.isNone = false) :
    (Column.vertex d).contents = (Column.vertex c).contents ++ [some (.vertex v)] := by
  simp [Column.contents, h.contents_eq, VertexColumn.meaning_of_not_isNone hv]

theorem VertexColumn.Pushed.contents_absent {c d : VertexColumn}
    (h : VertexColumn.Pushed c c.placeholder d) (hopt : c.optional = true) :
    (Column.vertex d).contents = (Column.vertex c).contents ++ [none] := by
  simp [Column.contents, h.contents_eq, VertexColumn.meaning, hopt,
    VertexColumn.isNone_placeholder]

namespace Builder

variable {b b' : Builder} {v : Value}

/-- What pushes rely on: bitmaps have a bit for each row, and runs have labels. -/
def Aligned : Builder → Prop
  | segmented b => b.Started
  | edge c => c.Aligned
  | value b => b.Aligned
  | path c => c.Aligned
  | single _ | mixed _ => True

/-- What the rows hold, nothing where they are absent. -/
def contents (b : Builder) : List (Option Value) := (b.toColumn none).contents

/-- The reserved vertex id stands in absent rows only. -/
def Marked (b : Builder) : Prop := (b.toColumn none).Marked

/-! ## Finished columns -/

theorem toColumn_of_some {b : ValueBuilder} {validity : Bitmap} (h : b.validity = some validity)
    (arena : Option Arena) :
    (value b).toColumn arena = .optionalValue ⟨⟨b.storage, arena⟩, validity⟩ := by
  rw [toColumn, h]

theorem toColumn_of_none {b : ValueBuilder} (h : b.validity = none) (arena : Option Arena) :
    (value b).toColumn arena = .value ⟨b.storage, arena⟩ := by
  rw [toColumn, h]

/-- A column of values has a mask or has none. -/
theorem toColumn_value_cases {P : Column → Prop} {b : ValueBuilder} {arena : Option Arena}
    (hplain : P (.value ⟨b.storage, arena⟩))
    (hoptional : ∀ validity, P (.optionalValue ⟨⟨b.storage, arena⟩, validity⟩)) :
    P ((value b).toColumn arena) := by
  cases hv : b.validity with
  | none =>
    rw [toColumn_of_none hv]
    exact hplain
  | some validity =>
    rw [toColumn_of_some hv]
    exact hoptional validity

theorem toColumn_value_ne_vertex (b : ValueBuilder) (arena : Option Arena) (c : VertexColumn) :
    (value b).toColumn arena ≠ .vertex c :=
  toColumn_value_cases (P := (· ≠ .vertex c)) (fun h => by cases h) fun _ h => by cases h

theorem aligned_toColumn (h : b.Aligned) (arena : Option Arena) : (b.toColumn arena).Aligned := by
  cases b with
  | value b =>
    have hb : Bitmap.Aligned b.storage.size b.validity := h
    cases hv : b.validity with
    | none =>
      rw [toColumn_of_none hv]
      trivial
    | some validity =>
      rw [toColumn_of_some hv]
      rwa [hv] at hb
  | edge c | path c => exact h
  | single c | segmented c | mixed c => trivial

/-- The arena does not matter to the rows. -/
theorem contents_toColumn (b : Builder) (arena : Option Arena) :
    (b.toColumn arena).contents = b.contents := by
  cases b with
  | value b =>
    rw [contents]
    cases hv : b.validity with
    | none => rw [toColumn_of_none hv, toColumn_of_none hv]; rfl
    | some validity => rw [toColumn_of_some hv, toColumn_of_some hv]; rfl
  | single c | segmented c | mixed c | edge c | path c => rfl

theorem marked_toColumn_value (b : ValueBuilder) (arena : Option Arena) :
    ((value b).toColumn arena).Marked :=
  toColumn_value_cases trivial fun _ => trivial

theorem marked_toColumn (h : b.Marked) (arena : Option Arena) : (b.toColumn arena).Marked := by
  cases b with
  | value b => exact marked_toColumn_value b arena
  | single c | segmented c | mixed c => exact h
  | edge c | path c => trivial

theorem contents_value (b : ValueBuilder) : (value b).contents = b.contents := by
  rw [contents, ValueBuilder.contents]
  cases hv : b.validity with
  | none =>
    rw [toColumn_of_none hv, Bitmap.presence, Bitmap.append.bits, ← Storage.length_values,
      mask_replicate_true]
    rfl
  | some validity => rw [toColumn_of_some hv]; rfl

theorem finish_eq_toColumn (id : ArenaId) (arena : Option Arena) (b : Builder) :
    ∃ arena', b.finish id arena = b.toColumn arena' := by
  cases b with
  | value b => exact ⟨b.arena id arena, rfl⟩
  | single c | segmented c | mixed c | edge c | path c => exact ⟨arena, rfl⟩

/-! ## Pushes -/

/-- One more row, and none of the others changed. -/
structure Pushed (b : Builder) (row : Option Value) (b' : Builder) : Prop where
  aligned : b'.Aligned
  marked : (∀ v ∈ row, v.isReserved = false) → b.Marked → b'.Marked
  contents_eq : (∀ v ∈ row, v.isReserved = false) → b'.contents = b.contents ++ [row]

theorem pushed_value {c c' : ValueBuilder} {row : Option Value}
    (h : c'.Aligned ∧ c'.contents = c.contents ++ [row]) : Pushed (value c) row (value c') := by
  refine ⟨h.1, fun _ _ => marked_toColumn_value c' none, fun _ => ?_⟩
  rw [contents_value, contents_value, h.2]

theorem pushed_edge {c d : EdgeColumn} {row : Option Edge} (hd : d.Aligned)
    (h : d.contents = c.contents ++ [row]) : Pushed (edge c) (row.map .edge) (edge d) := by
  refine ⟨hd, fun _ _ => trivial, fun _ => ?_⟩
  simp [contents, toColumn, Column.contents, h]

theorem pushed_path {c d : PathColumn} {row : Option Path} (hd : d.Aligned)
    (h : d.contents = c.contents ++ [row]) : Pushed (path c) (row.map .path) (path d) := by
  refine ⟨hd, fun _ _ => trivial, fun _ => ?_⟩
  simp [contents, toColumn, Column.contents, h]

/-- A builder of vertices is pushed to as the column that it would be finished to. -/
theorem pushed_vertex {c d : VertexColumn} {x : Vertex} (hc : b.toColumn none = .vertex c)
    (hd : b'.toColumn none = .vertex d) (ha : b'.Aligned) (h : VertexColumn.Pushed c x d) :
    Pushed b (some (.vertex x)) b' := by
  refine ⟨ha, fun hx hm => ?_, fun hx => ?_⟩
  · have hreal : x.isNone = false := hx _ rfl
    rw [Marked, hc] at hm
    rw [Marked, hd]
    exact h.marked hm fun hnone => absurd hnone (by simp [hreal])
  · rw [contents, contents, hc, hd]
    exact h.contents_present (hx _ rfl)

theorem pushed_placeholder {c d : VertexColumn} (hc : b.toColumn none = .vertex c)
    (hd : b'.toColumn none = .vertex d) (ha : b'.Aligned) (hopt : c.optional = true)
    (h : VertexColumn.Pushed c c.placeholder d) : Pushed b none b' := by
  refine ⟨ha, fun _ hm => ?_, fun _ => ?_⟩
  · rw [Marked, hc] at hm
    rw [Marked, hd]
    exact h.marked hm fun _ => ⟨hopt, rfl⟩
  · rw [contents, contents, hc, hd]
    exact h.contents_absent hopt

/-- What pushing a value does. Each builder takes values of its own type, and refuses all others. -/
inductive ValuePushed : Builder → Value → Builder → Prop where
  | single {c d : SingleVertices} {x : Vertex} (h : c.push x = .ok d) :
      ValuePushed (single c) (.vertex x) (single d)
  | segmented (c : SegmentBuilder) (x : Vertex) :
      ValuePushed (segmented c) (.vertex x) (segmented (c.push x))
  | mixed (c : MixedVertices) (x : Vertex) : ValuePushed (mixed c) (.vertex x) (mixed (c.push x))
  | edge (c : EdgeColumn) (x : Edge) : ValuePushed (edge c) (.edge x) (edge (c.push x))
  | value {c d : ValueBuilder} {v : Value} (h : c.push v = .ok d) :
      ValuePushed (value c) v (value d)
  | path (c : PathColumn) (x : Path) : ValuePushed (path c) (.path x) (path (c.push x))

theorem valuePushed_of_pushValue (h : b.pushValue v = .ok b') : ValuePushed b v b' := by
  cases b with
  | single c =>
    cases v with
    | vertex x =>
      obtain ⟨d, hd, rfl⟩ := map_eq_ok_iff.1 h
      exact .single hd
    | _ => cases h
  | segmented c =>
    cases v with
    | vertex x =>
      cases h
      exact .segmented c x
    | _ => cases h
  | mixed c =>
    cases v with
    | vertex x =>
      cases h
      exact .mixed c x
    | _ => cases h
  | edge c =>
    cases v with
    | edge x =>
      cases h
      exact .edge c x
    | _ => cases h
  | value c =>
    obtain ⟨d, hd, rfl⟩ := map_eq_ok_iff.1 h
    exact .value hd
  | path c =>
    cases v with
    | path x =>
      cases h
      exact .path c x
    | _ => cases h

/-- A builder of vertices stores the vertex that is pushed. -/
theorem vertex_of_pushValue {c : VertexColumn} (hb : b.Aligned) (hc : b.toColumn none = .vertex c)
    (h : b.pushValue v = .ok b') :
    ∃ x d, v = .vertex x ∧ b'.Aligned ∧ b'.toColumn none = .vertex d ∧
      VertexColumn.Pushed c x d := by
  cases valuePushed_of_pushValue h with
  | single hd =>
    cases hc
    exact ⟨_, _, rfl, trivial, rfl, SingleVertices.pushed_of_push hd⟩
  | segmented s x =>
    cases hc
    exact ⟨x, _, rfl, s.started_push x, rfl, SegmentBuilder.pushed_push hb x⟩
  | mixed s x =>
    cases hc
    exact ⟨x, _, rfl, trivial, rfl, s.pushed_push x⟩
  | @value s => exact absurd hc (toColumn_value_ne_vertex s none c)
  | edge | path => cases hc

/-- A builder of vertices stores its placeholder for an absent row, and only in an optional
column. -/
theorem vertex_of_pushNull {c : VertexColumn} (hc : b.toColumn none = .vertex c)
    (h : b.pushNull = .ok b') :
    ∃ d, b'.Aligned ∧ b'.toColumn none = .vertex d ∧ c.optional = true ∧
      VertexColumn.Pushed c c.placeholder d := by
  cases b with
  | single s =>
    cases hc
    obtain ⟨d, hd, rfl⟩ := map_eq_ok_iff.1 h
    obtain ⟨hopt, hpush⟩ := SingleVertices.pushed_of_pushNull hd
    exact ⟨_, trivial, rfl, hopt, hpush⟩
  | segmented s => cases h
  | mixed s =>
    cases hc
    obtain ⟨d, hd, rfl⟩ := map_eq_ok_iff.1 h
    obtain ⟨hopt, hpush⟩ := MixedVertices.pushed_of_pushNull hd
    exact ⟨_, trivial, rfl, hopt, hpush⟩
  | value s => exact absurd hc (toColumn_value_ne_vertex s none c)
  | edge s | path s => cases hc

theorem pushed_of_pushValue (hb : b.Aligned) (h : b.pushValue v = .ok b') :
    Pushed b (some v) b' := by
  cases valuePushed_of_pushValue h with
  | single | segmented | mixed =>
    obtain ⟨x, d, ⟨⟩, ha, hd, hpush⟩ := vertex_of_pushValue hb rfl h
    exact pushed_vertex rfl hd ha hpush
  | edge c x =>
    exact pushed_edge (RecordColumn.aligned_push hb x) (RecordColumn.contents_push hb x)
  | value hd => exact pushed_value (ValueBuilder.pushed_of_push hb hd)
  | path c x =>
    exact pushed_path (RecordColumn.aligned_push hb x) (RecordColumn.contents_push hb x)

theorem pushed_of_pushNull (hb : b.Aligned) (h : b.pushNull = .ok b') : Pushed b none b' := by
  cases b with
  | single c | segmented c | mixed c =>
    obtain ⟨d, ha, hd, hopt, hpush⟩ := vertex_of_pushNull rfl h
    exact pushed_placeholder rfl hd ha hopt hpush
  | edge c =>
    obtain ⟨d, hd, rfl⟩ := map_eq_ok_iff.1 h
    exact pushed_edge (RecordColumn.aligned_of_pushNull hb hd)
      (RecordColumn.contents_of_pushNull hb hd)
  | value c =>
    obtain ⟨d, hd, rfl⟩ := map_eq_ok_iff.1 h
    exact pushed_value (ValueBuilder.pushed_of_pushNull hb hd)
  | path c =>
    obtain ⟨d, hd, rfl⟩ := map_eq_ok_iff.1 h
    exact pushed_path (RecordColumn.aligned_of_pushNull hb hd)
      (RecordColumn.contents_of_pushNull hb hd)

theorem pushed_of_push (hb : b.Aligned) (h : b.push v = .ok b') : Pushed b v.toRow b' := by
  unfold push at h
  rw [Value.toRow]
  by_cases hnull : v.isNull
  · rw [if_pos hnull] at h ⊢
    exact pushed_of_pushNull hb h
  · rw [if_neg hnull] at h ⊢
    exact pushed_of_pushValue hb h

theorem length_contents (hb : b.Aligned) : b.contents.length = (b.toColumn none).size :=
  Column.length_contents (aligned_toColumn hb none)

/-- The arena does not matter to the number of rows. -/
theorem size_toColumn (hb : b.Aligned) (arena : Option Arena) :
    (b.toColumn arena).size = (b.toColumn none).size := by
  rw [← length_contents hb, ← contents_toColumn b arena,
    Column.length_contents (aligned_toColumn hb arena)]

/-- A push adds one row, also if the reserved vertex is pushed. -/
theorem size_of_pushValue (hb : b.Aligned) (h : b.pushValue v = .ok b') :
    (b'.toColumn none).size = (b.toColumn none).size + 1 := by
  have hb' := (pushed_of_pushValue hb h).aligned
  cases valuePushed_of_pushValue h with
  | single | segmented | mixed =>
    obtain ⟨x, d, -, -, hd, hpush⟩ := vertex_of_pushValue hb rfl h
    rw [hd]
    exact hpush.size_eq
  | edge | path => exact List.length_append
  | value hd =>
    have hrows := (ValueBuilder.pushed_of_push hb hd).2
    rw [← length_contents hb', ← length_contents hb, contents_value, contents_value, hrows,
      List.length_append]
    rfl

theorem size_of_push (hb : b.Aligned) (h : b.push v = .ok b') :
    (b'.toColumn none).size = (b.toColumn none).size + 1 := by
  unfold push at h
  by_cases hnull : v.isNull
  · rw [if_pos hnull] at h
    have hpush := pushed_of_pushNull hb h
    rw [← length_contents hpush.aligned, ← length_contents hb,
      hpush.contents_eq (fun _ hv => by cases hv), List.length_append]
    rfl
  · rw [if_neg hnull] at h
    exact size_of_pushValue hb h

theorem pushAll_cons_eq_ok_iff {values : List Value} :
    b.pushAll (v :: values) = .ok b' ↔ ∃ mid, b.push v = .ok mid ∧ mid.pushAll values = .ok b' :=
  foldlM_cons_eq_ok_iff

/-- A row for each value, whatever the values are. -/
theorem size_of_pushAll {values : List Value} (hb : b.Aligned) (h : b.pushAll values = .ok b') :
    b'.Aligned ∧ (b'.toColumn none).size = (b.toColumn none).size + values.length := by
  induction values generalizing b with
  | nil =>
    cases h
    exact ⟨hb, rfl⟩
  | cons v values ih =>
    obtain ⟨b₁, hpush, h⟩ := pushAll_cons_eq_ok_iff.1 h
    obtain ⟨ha, hsize⟩ := ih (pushed_of_push hb hpush).aligned h
    refine ⟨ha, ?_⟩
    rw [hsize, size_of_push hb hpush, List.length_cons]
    omega

/-- A row for each value, in order. -/
theorem contents_of_pushAll {values : List Value} (hb : b.Aligned)
    (hvalues : ∀ v ∈ values, v.isReserved = false) (h : b.pushAll values = .ok b') :
    b'.Aligned ∧ b'.contents = b.contents ++ values.map Value.toRow := by
  -- on the values, for every builder that the pushes before have left
  induction values generalizing b with
  | nil =>
    cases h
    exact ⟨hb, (List.append_nil _).symm⟩
  | cons v values ih =>
    obtain ⟨b₁, hpush, h⟩ := pushAll_cons_eq_ok_iff.1 h
    have hrow := pushed_of_push hb hpush
    have hv : ∀ w ∈ v.toRow, w.isReserved = false := by
      intro w hw
      unfold Value.toRow at hw
      split at hw
      · cases hw
      · cases hw
        exact hvalues v List.mem_cons_self
    obtain ⟨ha, hcontents⟩ :=
      ih hrow.aligned (fun w hw => hvalues w (List.mem_cons_of_mem v hw)) h
    refine ⟨ha, ?_⟩
    rw [hcontents, hrow.contents_eq hv, List.map_cons, List.append_assoc]
    rfl

end Builder

end ColumnFlow
