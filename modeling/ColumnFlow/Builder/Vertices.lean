import ColumnFlow.Column.Vertices

/-!
# Building vertex columns

Single and mixed columns grow by one row at a time. Segmented columns are built from a run that is
still open and the runs closed before it; a run is closed when another label is started.
-/

namespace ColumnFlow

namespace SingleVertices

/-- No rows. -/
def empty (label : Label) (optional : Bool) : SingleVertices := ⟨label, [], optional⟩

/-- One more row, with the vertex of an id. -/
def pushVid (c : SingleVertices) (vid : VertexId) : SingleVertices :=
  { c with vids := c.vids ++ [vid] }

/-- One more row, with a vertex of the column's label. -/
def push (c : SingleVertices) (v : Vertex) : Except Fault SingleVertices :=
  if c.label = v.label then .ok (c.pushVid v.vid) else .error (.labelMismatch c.label v.label)

/-- One more row, absent. -/
def pushNull (c : SingleVertices) : Except Fault SingleVertices :=
  if c.optional then .ok (c.pushVid noVertexId) else .error .nullRefused

end SingleVertices

namespace MixedVertices

/-- No rows. -/
def empty (optional : Bool) : MixedVertices := ⟨[], LabelSet.empty, optional⟩

/-- One more row. -/
def push (c : MixedVertices) (v : Vertex) : MixedVertices :=
  { c with vertices := c.vertices ++ [v], labels := c.labels.insert v.label }

/-- One more row, absent. -/
def pushNull (c : MixedVertices) : Except Fault MixedVertices :=
  if c.optional then .ok { c with vertices := c.vertices ++ [Vertex.absent] }
  else .error .nullRefused

end MixedVertices

/-- Runs of vertices in the making: the label and the ids of the open run, if a label has been
started, and the runs closed before it. -/
structure SegmentBuilder where
  label? : Option Label
  vids : List VertexId
  closed : List Segment
  deriving DecidableEq

namespace SegmentBuilder

/-- No label started. -/
def empty : SegmentBuilder := ⟨none, [], []⟩

/-- The open run closed. A run without vertices leaves no segment. -/
def close (b : SegmentBuilder) : SegmentBuilder :=
  match b.label? with
  | some label => if b.vids.isEmpty then b else ⟨some label, [], b.closed ++ [⟨label, b.vids⟩]⟩
  | none => b

/-- Vertices of `label` come next. The open run goes on if it is of this label. -/
def startLabel (b : SegmentBuilder) (label : Label) : SegmentBuilder :=
  if b.label? = some label then b else { b.close with label? := some label }

/-- One more row, with a vertex. -/
def push (b : SegmentBuilder) (v : Vertex) : SegmentBuilder :=
  let b := b.startLabel v.label
  { b with vids := b.vids ++ [v.vid] }

/-- One more row, with the vertex of an id under the label last started. -/
def pushVid (b : SegmentBuilder) (vid : VertexId) : Except Fault SegmentBuilder :=
  if b.label?.isSome then .ok { b with vids := b.vids ++ [vid] } else .error .labelNotStarted

/-- The column of all runs. -/
def finish (b : SegmentBuilder) : SegmentedVertices := ⟨b.close.closed⟩

end SegmentBuilder

end ColumnFlow
