import ColumnFlow.Arena
import ColumnFlow.Column.Storage

/-!
# Value columns

A value column holds scalars or lists, and refers to the arena that keeps their texts. Its optional
form has a bit for each row; an absent row has a placeholder among the cells.
-/

namespace ColumnFlow

/-- A column of values, all of them present. -/
structure ValueColumn where
  storage : Storage
  arena : Option Arena

namespace ValueColumn

/-- The number of rows. -/
def size (c : ValueColumn) : Nat := c.storage.size

/-- The type of the rows. -/
def elemType (c : ValueColumn) : ElemType := c.storage.elemType

/-- What the column is, in a few characters. -/
def info (c : ValueColumn) : String := s!"ValueColumn<{c.elemType.name}>[{c.size}]"

/-- The value in row `i`. -/
def get (c : ValueColumn) (i : Nat) : Except Fault Value := c.storage.get i

/-- Every row there is has a value. -/
def hasValue (c : ValueColumn) (i : Nat) : Except Fault Bool :=
  if i < c.size then .ok true else .error (.row .value)

/-- The rows that the offsets name. -/
def gather (c : ValueColumn) (offsets : List Nat) : Except Fault ValueColumn := do
  return { c with storage := ← c.storage.gather offsets }

/-- The rows of both, the first one's first. `id` is the identity of their arena if it is new. -/
def append (id : ArenaId) (c d : ValueColumn) : Except Fault ValueColumn := do
  return { storage := ← c.storage.append d.storage, arena := Arena.join id c.arena d.arena }

/-- Columns are compared by their cells. Arenas only keep texts. -/
instance : BEq ValueColumn := ⟨fun c d => c.storage == d.storage⟩

end ValueColumn

/-- A column of values, some of them absent. -/
structure OptionalValueColumn where
  values : ValueColumn
  validity : Bitmap

namespace OptionalValueColumn

/-- The number of rows. -/
def size (c : OptionalValueColumn) : Nat := c.values.size

/-- The type of the rows. -/
def elemType (c : OptionalValueColumn) : ElemType := c.values.elemType

/-- What the column is, in a few characters. -/
def info (c : OptionalValueColumn) : String :=
  s!"OptionalValueColumn<{c.elemType.name}>[{c.size}]"

/-- The value in row `i`, or its placeholder. -/
def get (c : OptionalValueColumn) (i : Nat) : Except Fault Value := c.values.get i

/-- Whether row `i` is present. -/
def hasValue (c : OptionalValueColumn) (i : Nat) : Except Fault Bool := c.validity.get i

/-- The rows that the offsets name. -/
def gather (c : OptionalValueColumn) (offsets : List Nat) : Except Fault OptionalValueColumn := do
  let values ← c.values.gather offsets
  return { values, validity := ← c.validity.gather offsets }

/-- The rows that the offsets name; those that name none are absent. -/
def gatherOptional (c : OptionalValueColumn) (offsets : List (Option Nat)) :
    Except Fault OptionalValueColumn := do
  let storage ← c.values.storage.gatherOptional offsets
  return {
    values := { c.values with storage }
    validity := ← Bitmap.gatherOptional (some c.validity) offsets }

/-- The rows of both, the first one's first. `id` is the identity of their arena if it is new. -/
def append (id : ArenaId) (c d : OptionalValueColumn) : Except Fault OptionalValueColumn := do
  return {
    values := ← c.values.append id d.values
    validity := c.validity.extend d.validity.toList }

/-- The number of each present row among the numbers of the cells. -/
def presentSignatures (c : OptionalValueColumn) : Except Fault (List (Option Nat)) :=
  c.values.storage.signatures.zipIdx.mapM fun (signature, i) => do
    return if ← c.validity.get i then some signature else none

/-- A number for each row, the same number exactly for equal rows. All absent rows are equal, and
no present row is equal to them. -/
def signatures (c : OptionalValueColumn) : Except Fault (List Nat) := do
  return Rows.ordinals (← c.presentSignatures)

/-- Columns are compared by their cells and by the presence of their rows. -/
instance : BEq OptionalValueColumn :=
  ⟨fun c d => c.values == d.values && decide (c.validity = d.validity)⟩

end OptionalValueColumn

/-- The rows that the offsets name; those that name none are absent. -/
def ValueColumn.gatherOptional (c : ValueColumn) (offsets : List (Option Nat)) :
    Except Fault OptionalValueColumn := do
  let storage ← c.storage.gatherOptional offsets
  return {
    values := { c with storage }
    validity := ← Bitmap.gatherOptional none offsets }

end ColumnFlow
