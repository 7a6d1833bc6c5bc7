import ColumnFlow.LabelSet
import ColumnFlow.Rows.Gather

/-!
# Vertex columns

There are three ways to store vertices. If all of them have one label, their ids are enough. If
labels come in runs, each run is a segment: a label with its ids. Otherwise every row has a vertex
of its own. Absent rows have no bitmap: in an optional column they hold the reserved id.
-/

namespace ColumnFlow

/-- The number of vertex ids. -/
def vertexIdCount : Nat := 4294967296

/-- A number for each vertex: the id in the low 32 bits, the label above them. -/
def Vertex.signature (v : Vertex) : Nat := v.label.toNat * vertexIdCount + v.vid.toNat

/-! ## The three ways of storage -/

/-- The placeholder for absent rows of mixed labels. -/
def Vertex.absent : Vertex := Vertex.none lastLabel

/-- Vertices of one label. -/
structure SingleVertices where
  label : Label
  vids : List VertexId
  optional : Bool
  deriving DecidableEq

/-- A run of vertices of one label. -/
structure Segment where
  label : Label
  vids : List VertexId
  deriving DecidableEq

/-- The vertices of a run. -/
def Segment.vertices (s : Segment) : List Vertex := s.vids.map (Vertex.mk s.label)

/-- Vertices in runs. All of them are present. -/
structure SegmentedVertices where
  segments : List Segment
  deriving DecidableEq

/-- Vertices of any labels. `labels` has the labels of the present ones, and may have more. -/
structure MixedVertices where
  vertices : List Vertex
  labels : LabelSet
  optional : Bool
  deriving DecidableEq

/-! ## Runs -/

namespace SegmentedVertices

/-- The number of rows. -/
def size (c : SegmentedVertices) : Nat := c.segments.foldr (fun s n => s.vids.length + n) 0

/-- Run `i`. -/
def segment (c : SegmentedVertices) (i : Nat) : Except Fault Segment := Rows.fetch c.segments i

/-- The labels of the runs. -/
def labels (c : SegmentedVertices) : LabelSet := LabelSet.ofList (c.segments.map Segment.label)

/-- The vertices of all runs. -/
def vertices (c : SegmentedVertices) : List Vertex := c.segments.flatMap Segment.vertices

/-- The vertex that stands `i` places after the start of the runs. -/
def vertexAt? : List Segment → Nat → Option Vertex
  | [], _ => none
  | s :: segments, i =>
    match s.vids[i]? with
    | some vid => some ⟨s.label, vid⟩
    | none => vertexAt? segments (i - s.vids.length)

/-- The vertex in row `i`. -/
def get (c : SegmentedVertices) (i : Nat) : Except Fault Vertex :=
  match vertexAt? c.segments i with
  | some v => .ok v
  | none => .error (.segmentedRow c.size)

/-- The vertices of the runs with their rows, counted from `row` on. -/
def visitFrom (row : Nat) : List Segment → List (Nat × Vertex)
  | [] => []
  | s :: segments =>
    (s.vids.zipIdx row).map (fun (vid, i) => (i, ⟨s.label, vid⟩)) ++
      visitFrom (row + s.vids.length) segments

/-- A number for each row. -/
def signatures (c : SegmentedVertices) : List Nat :=
  c.segments.flatMap fun s => s.vids.map fun vid => (Vertex.mk s.label vid).signature

end SegmentedVertices

/-! ## Vertex columns -/

/-- A column of vertices. -/
inductive VertexColumn where
  | single (c : SingleVertices)
  | segmented (c : SegmentedVertices)
  | mixed (c : MixedVertices)
  deriving DecidableEq

namespace VertexColumn

/-- The number of rows. -/
def size : VertexColumn → Nat
  | single c => c.vids.length
  | segmented c => c.size
  | mixed c => c.vertices.length

/-- Whether rows may be absent. -/
def optional : VertexColumn → Bool
  | single c => c.optional
  | segmented _ => false
  | mixed c => c.optional

/-- The labels of the vertices that are present; there may be more. -/
def labels : VertexColumn → LabelSet
  | single c => LabelSet.ofList [c.label]
  | segmented c => c.labels
  | mixed c => c.labels

/-- What the column is, in a few characters. -/
def info (c : VertexColumn) : String :=
  let mark := if c.optional then "Optional" else ""
  match c with
  | single s => s!"{mark}SLVertexColumn({s.label})[{c.size}]"
  | segmented s => s!"MSVertexColumn({s.labels.text})[{c.size}]"
  | mixed m => s!"{mark}MLVertexColumn({m.labels.text})[{c.size}]"

/-- The vertex in row `i`, or its placeholder. -/
def get (c : VertexColumn) (i : Nat) : Except Fault Vertex :=
  match c with
  | single s => Vertex.mk s.label <$> Rows.fetch s.vids i
  | segmented s => s.get i
  | mixed m => Rows.fetch m.vertices i

/-- Whether row `i` is present. -/
def hasValue (c : VertexColumn) (i : Nat) : Except Fault Bool :=
  match c with
  | single s => do return (← Rows.fetch s.vids i) != noVertexId || !s.optional
  | segmented s => if i < s.size then .ok true else .error (.row .vertex)
  | mixed m => do return !(← Rows.fetch m.vertices i).isNone || !m.optional

/-- Every row with its vertex or placeholder, in order. -/
def visit : VertexColumn → List (Nat × Vertex)
  | single s => s.vids.zipIdx.map fun (vid, i) => (i, ⟨s.label, vid⟩)
  | segmented s => SegmentedVertices.visitFrom 0 s.segments
  | mixed m => m.vertices.zipIdx.map fun (v, i) => (i, v)

/-- The vertices of all rows, those that are absent as the placeholder for mixed labels. -/
def normalized : VertexColumn → List Vertex
  | single s =>
    s.vids.map fun vid =>
      if s.optional && vid == noVertexId then Vertex.absent else ⟨s.label, vid⟩
  | segmented s => s.vertices
  | mixed m => m.vertices.map fun v => if m.optional && v.isNone then Vertex.absent else v

/-! ## Gathering and appending -/

/-- The rows that the offsets name. Runs are not kept. -/
def gather (c : VertexColumn) (offsets : List Nat) : Except Fault VertexColumn :=
  match c with
  | single s => do return single { s with vids := ← Rows.gather s.vids offsets }
  | segmented s => do
    return mixed ⟨← Rows.gather s.vertices offsets, s.labels, false⟩
  | mixed m => do return mixed { m with vertices := ← Rows.gather m.vertices offsets }

/-- The rows that the offsets name; those that name none are absent. -/
def gatherOptional (c : VertexColumn) (offsets : List (Option Nat)) :
    Except Fault VertexColumn :=
  match c with
  | single s => do
    return single ⟨s.label, ← Rows.gatherOptional noVertexId s.vids offsets, true⟩
  | segmented _ => .error (.segmentedGather c.info)
  | mixed m => do
    return mixed ⟨← Rows.gatherOptional Vertex.absent m.vertices offsets, m.labels, true⟩

/-- The rows of both, the first one's first. They are stored by id alone if both columns have one
label, the same, and otherwise as vertices of mixed labels. -/
def append (c d : VertexColumn) : Except Fault VertexColumn :=
  match c, d with
  | segmented _, _ | _, segmented _ => .error (.segmentedAppend c.info d.info)
  | single s, single t =>
    if s.label = t.label then .ok (single ⟨s.label, s.vids ++ t.vids, s.optional || t.optional⟩)
    else .ok (mixed (mix c d))
  | _, _ => .ok (mixed (mix c d))
where
  /-- The rows of both as vertices of mixed labels. -/
  mix (c d : VertexColumn) : MixedVertices :=
    ⟨c.normalized ++ d.normalized, c.labels.union d.labels, c.optional || d.optional⟩

/-- A number for each row, the same number exactly for equal vertices. -/
def signatures : VertexColumn → List Nat
  | single s => s.vids.map fun vid => (Vertex.mk s.label vid).signature
  | segmented s => s.signatures
  | mixed m => m.vertices.map Vertex.signature

end VertexColumn

end ColumnFlow
