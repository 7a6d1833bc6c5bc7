import ColumnFlow.Column.Records
import ColumnFlow.Column.Values

/-!
# Building columns of values, edges and paths

A builder of values can copy texts into an arena of its own. Columns of edges and paths grow by one
row at a time.
-/

namespace ColumnFlow

/-- A value column in the making: its cells, a bitmap if rows may be absent, and the copied texts. -/
structure ValueBuilder where
  storage : Storage
  validity : Option Bitmap
  texts : ArenaBuilder

namespace ValueBuilder

/-- No rows, in an empty storage. -/
def ofStorage (storage : Storage) (optional : Bool) : ValueBuilder :=
  ⟨storage, if optional then some Bitmap.empty else none, ArenaBuilder.empty⟩

/-- No rows. Vertices, edges, paths and nulls are not built this way. -/
def empty (type : ElemType) (optional : Bool) : Except Fault ValueBuilder := do
  return ofStorage (← Storage.empty type) optional

/-- The type of the rows. -/
def elemType (b : ValueBuilder) : ElemType := b.storage.elemType

/-- One more row, with a value. -/
def push (b : ValueBuilder) (v : Value) : Except Fault ValueBuilder := do
  return {
    b with
    storage := ← b.storage.push v
    validity := b.validity.map (·.push true) }

/-- One more row, absent. -/
def pushNull (b : ValueBuilder) : Except Fault ValueBuilder :=
  match b.validity with
  | some validity =>
    .ok { b with storage := b.storage.pushPlaceholder, validity := some (validity.push false) }
  | none => .error (.nullValueRefused b.elemType)

/-- One more row, with a text that is copied first. -/
def pushText (b : ValueBuilder) (text : String) : Except Fault ValueBuilder :=
  push { b with texts := b.texts.alloc text } (.string text)

/-- The arena for the column: the given one, with the copied texts behind its own if there are any.
`id` is its identity if it is new. -/
def arena (id : ArenaId) (b : ValueBuilder) (given : Option Arena) : Option Arena :=
  if b.texts.size = 0 then given
  else
    match given with
    | some arena => some (Arena.merge id arena (ArenaBuilder.freeze id b.texts))
    | none => some (ArenaBuilder.freeze id b.texts)

end ValueBuilder

namespace RecordColumn

variable {α : Type}

/-- No rows. -/
def empty (optional : Bool) : RecordColumn α :=
  ⟨[], if optional then some Bitmap.empty else none⟩

/-- One more row. -/
def push (c : RecordColumn α) (cell : α) : RecordColumn α :=
  ⟨c.cells ++ [cell], c.validity.map (·.push true)⟩

/-- One more row, absent. -/
def pushNull [Record α] (c : RecordColumn α) : Except Fault (RecordColumn α) :=
  match c.validity with
  | some validity => .ok ⟨c.cells ++ [Record.placeholder], some (validity.push false)⟩
  | none => .error .nullRefused

end RecordColumn

end ColumnFlow
