import ColumnFlow.Builder.Vertices
import ColumnFlow.Proofs.Column.Vertices

/-!
# Vertex columns in the making

Whatever the representation, a push stores one more vertex behind the others. Runs in the making
stand for the column that they would be finished to. As long as ids are only kept under a label that
has been started (`SegmentBuilder.Started`), starting a label changes nothing of that column.
-/

namespace ColumnFlow

namespace VertexColumn

variable {c d : VertexColumn} {v : Vertex}

/-- One more vertex is stored. -/
structure Pushed (c : VertexColumn) (v : Vertex) (d : VertexColumn) : Prop where
  vertices_eq : d.vertices = c.vertices ++ [v]
  optional_eq : d.optional = c.optional
  placeholder_eq : d.placeholder = c.placeholder

theorem Pushed.contents_eq (h : Pushed c v d) :
    d.contents = c.contents ++ [meaning c.optional v] := by
  simp [contents, h.vertices_eq, h.optional_eq]

theorem Pushed.size_eq (h : Pushed c v d) : d.size = c.size + 1 := by
  rw [← length_vertices, h.vertices_eq, List.length_append, length_vertices]
  rfl

/-- A vertex that is not the reserved one keeps a column marked, and so does the placeholder in an
optional column. -/
theorem Pushed.marked (h : Pushed c v d) (hc : c.Marked)
    (hv : v.isNone = true → c.optional = true ∧ v = c.placeholder) : d.Marked := by
  intro w hw hnone
  rw [h.optional_eq, h.placeholder_eq]
  rw [h.vertices_eq, List.mem_append, List.mem_singleton] at hw
  rcases hw with hw | rfl
  · exact hc w hw hnone
  · exact hv hnone

end VertexColumn

open VertexColumn

/-! ## Single and mixed columns -/

namespace SingleVertices

variable {c d : SingleVertices}

theorem pushed_pushVid (c : SingleVertices) (vid : VertexId) :
    Pushed (single c) ⟨c.label, vid⟩ (single (c.pushVid vid)) :=
  ⟨List.map_append, rfl, rfl⟩

theorem pushed_of_push {v : Vertex} (h : c.push v = .ok d) : Pushed (single c) v (single d) := by
  unfold push at h
  split at h
  · next hlabel =>
    cases h
    have hpush := pushed_pushVid c v.vid
    rwa [hlabel] at hpush
  · cases h

theorem pushed_of_pushNull (h : c.pushNull = .ok d) :
    c.optional = true ∧ Pushed (single c) (Vertex.none c.label) (single d) := by
  unfold pushNull at h
  split at h
  · next hopt =>
    cases h
    exact ⟨hopt, pushed_pushVid c noVertexId⟩
  · cases h

end SingleVertices

namespace MixedVertices

theorem pushed_push (c : MixedVertices) (v : Vertex) : Pushed (mixed c) v (mixed (c.push v)) :=
  ⟨rfl, rfl, rfl⟩

theorem pushed_of_pushNull {c d : MixedVertices} (h : c.pushNull = .ok d) :
    c.optional = true ∧ Pushed (mixed c) Vertex.absent (mixed d) := by
  unfold pushNull at h
  split at h
  · next hopt =>
    cases h
    exact ⟨hopt, rfl, rfl, rfl⟩
  · cases h

end MixedVertices

/-! ## Runs -/

namespace SegmentBuilder

variable {b : SegmentBuilder}

/-- Without a label there are no ids yet. -/
def Started (b : SegmentBuilder) : Prop := b.label? = none → b.vids = []

/-- The vertices of the open run. -/
def openVertices (b : SegmentBuilder) : List Vertex :=
  match b.label? with
  | some label => b.vids.map (Vertex.mk label)
  | none => []

/-- The vertices of the closed runs and of the open one. -/
def vertices (b : SegmentBuilder) : List Vertex :=
  b.closed.flatMap Segment.vertices ++ b.openVertices

theorem started_empty : empty.Started := fun _ => rfl

theorem started_of_label? {label : Label} (h : b.label? = some label) : b.Started := by
  intro hnone
  rw [h] at hnone
  cases hnone

theorem vids_close (h : b.Started) : b.close.vids = [] := by
  unfold close
  split
  · split
    · next hempty => exact List.isEmpty_iff.1 hempty
    · rfl
  · next hlabel => exact h hlabel

/-- Closing the open run keeps its vertices. -/
theorem vertices_close (b : SegmentBuilder) :
    b.close.closed.flatMap Segment.vertices = b.vertices := by
  unfold close vertices openVertices
  cases hlabel : b.label? with
  | none => simp
  | some label =>
    by_cases hempty : b.vids.isEmpty
    · simp [List.isEmpty_iff.1 hempty]
    · simp [hempty, Segment.vertices]

theorem vertices_finish (b : SegmentBuilder) : (segmented b.finish).vertices = b.vertices :=
  vertices_close b

theorem label?_startLabel (b : SegmentBuilder) (label : Label) :
    (b.startLabel label).label? = some label := by
  unfold startLabel
  split
  · next h => exact h
  · rfl

theorem vertices_startLabel (h : b.Started) (label : Label) :
    (b.startLabel label).vertices = b.vertices := by
  unfold startLabel
  split
  · rfl
  · -- the run before is closed, and the one that starts is empty
    rw [← vertices_close b]
    simp [vertices, openVertices, vids_close h]

theorem started_startLabel (b : SegmentBuilder) (label : Label) : (b.startLabel label).Started :=
  started_of_label? (label?_startLabel b label)

/-- An id behind those of the open run is one more vertex. -/
theorem vertices_concat {label : Label} (h : b.label? = some label) (vid : VertexId) :
    vertices { b with vids := b.vids ++ [vid] } = b.vertices ++ [⟨label, vid⟩] := by
  simp [vertices, openVertices, h]

theorem started_push (b : SegmentBuilder) (v : Vertex) : (b.push v).Started :=
  started_of_label? (label?_startLabel b v.label)

theorem pushed_push (h : b.Started) (v : Vertex) :
    Pushed (segmented b.finish) v (segmented (b.push v).finish) := by
  refine ⟨?_, rfl, rfl⟩
  rw [vertices_finish, vertices_finish, ← vertices_startLabel h v.label]
  exact vertices_concat (label?_startLabel b v.label) v.vid

/-- An id needs a label to stand under. -/
theorem pushVid_eq_ok_iff {b' : SegmentBuilder} {vid : VertexId} :
    b.pushVid vid = .ok b' ↔
      ∃ label, b.label? = some label ∧ b' = { b with vids := b.vids ++ [vid] } := by
  unfold pushVid
  cases b.label? <;> simp [eq_comm]

theorem pushed_of_pushVid {b' : SegmentBuilder} {vid : VertexId} (h : b.pushVid vid = .ok b') :
    b'.Started ∧ ∃ label, b.label? = some label ∧
      Pushed (segmented b.finish) ⟨label, vid⟩ (segmented b'.finish) := by
  obtain ⟨label, hlabel, rfl⟩ := pushVid_eq_ok_iff.1 h
  refine ⟨started_of_label? hlabel, label, hlabel, ?_, rfl, rfl⟩
  rw [vertices_finish, vertices_finish]
  exact vertices_concat hlabel vid

end SegmentBuilder

end ColumnFlow
