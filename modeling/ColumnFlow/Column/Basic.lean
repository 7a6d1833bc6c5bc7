import ColumnFlow.Column.Records
import ColumnFlow.Column.Values
import ColumnFlow.Column.Vertices
import ColumnFlow.Rows.Group

/-!
# Columns

A column has rows, each with a value or absent. Columns are not changed: gathering and appending
make new ones. Grouping and ranking answer with row numbers.
-/

namespace ColumnFlow

/-- A column of a row set. -/
inductive Column where
  | vertex (c : VertexColumn)
  | edge (c : EdgeColumn)
  | value (c : ValueColumn)
  | optionalValue (c : OptionalValueColumn)
  | path (c : PathColumn)

/-- The kind of a column. -/
inductive ColumnKind where
  | vertex
  | edge
  | value
  | optionalValue
  | path
  deriving DecidableEq

/-- The written form of a kind. -/
def ColumnKind.name : ColumnKind → String
  | vertex => "Vertex"
  | edge => "Edge"
  | value => "Value"
  | optionalValue => "OptionalValue"
  | path => "Path"

namespace Column

/-- The kind. -/
def kind : Column → ColumnKind
  | vertex _ => .vertex
  | edge _ => .edge
  | value _ => .value
  | optionalValue _ => .optionalValue
  | path _ => .path

/-- The number of rows. -/
def size : Column → Nat
  | vertex c => c.size
  | edge c => c.size
  | value c => c.size
  | optionalValue c => c.size
  | path c => c.size

/-- The type of the rows. -/
def elemType : Column → ElemType
  | vertex _ => .vertex
  | edge _ => .edge
  | value c => c.elemType
  | optionalValue c => c.elemType
  | path _ => .path

/-- What the column is, in a few characters. -/
def info : Column → String
  | vertex c => c.info
  | edge c => c.info
  | value c => c.info
  | optionalValue c => c.info
  | path c => c.info

/-- Whether rows may be absent. -/
def optional : Column → Bool
  | vertex c => c.optional
  | edge c => c.optional
  | value _ => false
  | optionalValue _ => true
  | path c => c.optional

/-- The value in row `i`. An absent row has a placeholder; `hasValue` tells. -/
def get (c : Column) (i : Nat) : Except Fault Value :=
  match c with
  | vertex c => Value.vertex <$> c.get i
  | edge c => Value.edge <$> c.get i
  | value c => c.get i
  | optionalValue c => c.get i
  | path c => Value.path <$> c.get i

/-- Whether row `i` is present. -/
def hasValue (c : Column) (i : Nat) : Except Fault Bool :=
  match c with
  | vertex c => c.hasValue i
  | edge c => c.hasValue i
  | value c => c.hasValue i
  | optionalValue c => c.hasValue i
  | path c => c.hasValue i

/-! ## Meaning -/

/-- What row `i` means: its value, or nothing where it is absent or there is no such row. -/
def rowAt (c : Column) (i : Nat) : Option Value :=
  match c.hasValue i, c.get i with
  | .ok true, .ok v => some v
  | _, _ => none

/-- What the column means: its rows in order. Placeholders do not count. -/
def rows (c : Column) : List (Option Value) := (List.range c.size).map c.rowAt

/-! ## Gathering and appending -/

/-- The rows that the offsets name. -/
def gather (c : Column) (offsets : List Nat) : Except Fault Column :=
  match c with
  | vertex c => vertex <$> c.gather offsets
  | edge c => edge <$> c.gather offsets
  | value c => value <$> c.gather offsets
  | optionalValue c => optionalValue <$> c.gather offsets
  | path c => path <$> c.gather offsets

/-- The rows that the offsets name; those that name none are absent. -/
def gatherOptional (c : Column) (offsets : List (Option Nat)) : Except Fault Column :=
  match c with
  | vertex c => vertex <$> c.gatherOptional offsets
  | edge c => edge <$> c.gatherOptional offsets
  | value c => optionalValue <$> c.gatherOptional offsets
  | optionalValue c => optionalValue <$> c.gatherOptional offsets
  | path c => path <$> c.gatherOptional offsets

/-- The rows of both, the first one's first. `id` is the identity of their arena if it is new. -/
def append (id : ArenaId) (c d : Column) : Except Fault Column :=
  if c.kind = d.kind ∧ c.elemType = d.elemType then
    match c, d with
    | vertex c, vertex d => vertex <$> c.append d
    | edge c, edge d => .ok (edge (c.append d))
    | value c, value d => value <$> c.append id d
    | optionalValue c, optionalValue d => optionalValue <$> c.append id d
    | path c, path d => .ok (path (c.append d))
    | _, _ => .error (.appendMismatch c.info d.info)
  else .error (.appendMismatch c.info d.info)

/-! ## Grouping and ranking -/

/-- A number for each row, the same number exactly for equal rows. -/
def signatures : Column → Except Fault (List Nat)
  | vertex c => .ok c.signatures
  | edge c => c.signatures
  | value c => .ok c.storage.signatures
  | optionalValue c => c.signatures
  | path c => c.signatures

/-- The number of row `i`. -/
def signatureAt (c : Column) (i : Nat) : Except Fault Nat := do
  Rows.fetch (← c.signatures) i

/-- The rows that equal no earlier row. -/
def firstRows (c : Column) : Except Fault (List Nat) := do
  return Rows.firstRows (← c.signatures)

/-- The distinct rows, each with all rows that equal it. -/
def group (c : Column) : Except Fault (Column × List (List Nat)) := do
  let groups := Rows.groups (← c.signatures)
  return (← c.gather (groups.map Rows.Group.first), groups.map Rows.Group.rows)

/-- The best `limit` rows of a column that has an order: a value column of scalars. -/
def best (c : Column) (ascending : Bool) (limit : Nat) : Option (List Nat) :=
  match c with
  | value c => c.storage.best ascending limit
  | _ => none

/-! ## Arenas and equality -/

/-- The arena that keeps the texts of the column. -/
def arena : Column → Option Arena
  | value c => c.arena
  | optionalValue c => c.values.arena
  | _ => none

/-- The column with another arena. Vertices, edges and paths refer to none. -/
def withArena (arena : Option Arena) : Column → Column
  | value c => value { c with arena }
  | optionalValue c => optionalValue { c with values := { c.values with arena } }
  | c => c

/-- Columns are equal if they are stored the same way and their cells are equal; see
`Storage.beq` for the cells of value columns. -/
instance : BEq Column where
  beq
    | vertex c, vertex d => decide (c = d)
    | edge c, edge d => decide (c = d)
    | value c, value d => c == d
    | optionalValue c, optionalValue d => c == d
    | path c, path d => decide (c = d)
    | _, _ => false

end Column

end ColumnFlow
