/-!
# Graph elements

Vertices, edges and paths as they stand in a row. A vertex is named by its label and an id that is
unique within the label. The largest id is reserved: it names no vertex, and optional vertex rows
hold it where a vertex is absent.
-/

namespace ColumnFlow

/-- The label of a vertex or an edge. -/
abbrev Label := UInt8

/-- The id of a vertex among the vertices of its label. -/
abbrev VertexId := UInt32

/-- The id reserved for "no vertex". -/
def noVertexId : VertexId := 4294967295

/-- The largest label; placeholders for absent rows carry it. -/
def lastLabel : Label := 255

/-- A vertex. -/
structure Vertex where
  label : Label
  vid : VertexId
  deriving DecidableEq

namespace Vertex

/-- The placeholder under `label`: a vertex that is none. -/
def none (label : Label) : Vertex := ⟨label, noVertexId⟩

/-- Whether the id is the reserved one. -/
def isNone (v : Vertex) : Bool := v.vid == noVertexId

@[simp] theorem isNone_none (label : Label) : (none label).isNone = true := by
  simp [none, isNone]

/-- Vertices are ordered by label, then by id. -/
instance : Ord Vertex where
  compare a b := (compare a.label b.label).then (compare a.vid b.vid)

end Vertex

/-- The labels of an edge: of its source, of its destination, and its own. -/
structure EdgeLabels where
  source : Label
  destination : Label
  edge : Label
  deriving DecidableEq

/-- Label triples are ordered by source, then by destination, then by the edge's own label. -/
instance : Ord EdgeLabels where
  compare a b :=
    ((compare a.source b.source).then (compare a.destination b.destination)).then
      (compare a.edge b.edge)

/-- A directed edge between two vertices. -/
structure Edge where
  labels : EdgeLabels
  source : VertexId
  destination : VertexId
  deriving DecidableEq

/-- Edges are ordered by labels, then by source, then by destination. -/
instance : Ord Edge where
  compare a b :=
    ((compare a.labels b.labels).then (compare a.source b.source)).then
      (compare a.destination b.destination)

/-- The placeholder stored where an edge is absent. -/
def Edge.none : Edge := ⟨⟨lastLabel, lastLabel, lastLabel⟩, noVertexId, noVertexId⟩

/-- The vertices that a path expansion visited, in order. -/
structure Path where
  vertices : List Vertex
  deriving DecidableEq

/-- The path that visits nothing; it is also the placeholder stored where a path is absent. -/
def Path.empty : Path := ⟨[]⟩

end ColumnFlow
