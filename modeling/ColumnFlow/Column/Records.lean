import ColumnFlow.Rows.Gather
import ColumnFlow.Rows.Ordinal

/-!
# Columns of edges and paths

Edges and paths are stored row by row. A column of them is optional if it has a bitmap; an absent
row then has a placeholder among the cells.
-/

namespace ColumnFlow

/-- Graph elements that are stored row by row. -/
class Record (α : Type) where
  /-- The family of their columns. -/
  family : Family
  /-- The name of their columns in descriptions. -/
  title : String
  /-- The cell of an absent row. -/
  placeholder : α

instance : Record Edge := ⟨.edge, "EdgeColumn", Edge.none⟩

instance : Record Path := ⟨.path, "PathColumn", Path.empty⟩

/-- A column of records. Without a bitmap every row is present. -/
structure RecordColumn (α : Type) where
  cells : List α
  validity : Option Bitmap
  deriving DecidableEq

/-- A column of edges. -/
abbrev EdgeColumn := RecordColumn Edge

/-- A column of paths. -/
abbrev PathColumn := RecordColumn Path

namespace RecordColumn

variable {α : Type}

/-- The number of rows. -/
def size (c : RecordColumn α) : Nat := c.cells.length

/-- Whether rows may be absent. -/
def optional (c : RecordColumn α) : Bool := c.validity.isSome

/-- What the column is, in a few characters. -/
def info [Record α] (c : RecordColumn α) : String :=
  let mark := if c.optional then "Optional" else ""
  s!"{mark}{Record.title α}[{c.size}]"

/-- The record in row `i`, or its placeholder. -/
def get (c : RecordColumn α) (i : Nat) : Except Fault α := Rows.fetch c.cells i

/-- Whether row `i` is present. -/
def hasValue [Record α] (c : RecordColumn α) (i : Nat) : Except Fault Bool :=
  match c.validity with
  | some validity => validity.get i
  | none => if i < c.size then .ok true else .error (.row (Record.family α))

/-- The rows, `none` where a row is absent. -/
def rows [Record α] (c : RecordColumn α) : Except Fault (List (Option α)) :=
  c.cells.zipIdx.mapM fun (cell, i) => do
    return if ← c.hasValue i then some cell else none

/-- The rows that the offsets name. -/
def gather (c : RecordColumn α) (offsets : List Nat) : Except Fault (RecordColumn α) := do
  let cells ← Rows.gather c.cells offsets
  let validity ← c.validity.mapM (Bitmap.gather · offsets)
  return { cells, validity }

/-- The rows that the offsets name; those that name none are absent. -/
def gatherOptional [Record α] (c : RecordColumn α) (offsets : List (Option Nat)) :
    Except Fault (RecordColumn α) := do
  let cells ← Rows.gatherOptional (Record.placeholder : α) c.cells offsets
  let validity ← Bitmap.gatherOptional c.validity offsets
  return { cells, validity := some validity }

/-- The rows of both, the first one's first. -/
def append (c d : RecordColumn α) : RecordColumn α where
  cells := c.cells ++ d.cells
  validity := Bitmap.append c.size c.validity d.size d.validity

/-- A number for each row, the same number exactly for equal rows. All absent rows are equal, and
no present row is equal to them. -/
def signatures [Record α] [DecidableEq α] (c : RecordColumn α) : Except Fault (List Nat) := do
  return Rows.ordinals (← c.rows)

end RecordColumn

/-- The labels of the edges that are present, ascending. -/
def EdgeColumn.labels (c : EdgeColumn) : Except Fault (List EdgeLabels) := do
  let present := (← RecordColumn.rows c).filterMap (Option.map Edge.labels)
  return (present.mergeSort fun a b => (compare a b).isLE).eraseReps

end ColumnFlow
