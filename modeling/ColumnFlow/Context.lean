import ColumnFlow.Column.Basic
import ColumnFlow.Settings

/-!
# Contexts

A context holds the columns of the rows that flow through a plan, each under a number, its tag.
All columns are gathered together, so that they stay row by row the same rows.
-/

namespace ColumnFlow

/-- The columns of a row set: the one under tag `a` stands in slot `a`. There are no empty slots
behind the last column. -/
structure Context where
  slots : List (Option Column)
  /-- Whether a column must have as many rows as the others. -/
  verifyLengths : Bool

namespace Context

/-- No columns. -/
def empty (settings : Settings) : Context := ⟨[], settings.verifiesLengths⟩

/-- The column under a tag. -/
def get? (ctx : Context) (tag : Nat) : Option Column := ctx.slots[tag]?.join

/-! ## Putting and removing columns -/

/-- The first column under another tag. -/
def firstOther? (ctx : Context) (tag : Nat) : Option Column :=
  ctx.slots.zipIdx.findSome? fun (slot, i) => if i = tag then none else slot

/-- The slots with a column put under a tag. -/
def putSlot (column : Column) : Nat → List (Option Column) → List (Option Column)
  | 0, [] => [some column]
  | 0, _ :: slots => some column :: slots
  | tag + 1, [] => none :: putSlot column tag []
  | tag + 1, slot :: slots => slot :: putSlot column tag slots

/-- The context with a column put under a tag. If lengths are verified, the column must have as
many rows as those under the other tags. -/
def set (ctx : Context) (tag : Nat) (column : Column) : Except Error Context :=
  let stored := { ctx with slots := putSlot column tag ctx.slots }
  if ctx.verifyLengths then
    match ctx.firstOther? tag with
    | some other =>
      if other.size = column.size then .ok stored
      else .error (.of (.lengthMismatch column.info column.size other.size))
    | none => .ok stored
  else .ok stored

/-- The slots without the empty ones behind the last column. -/
def trim : List (Option Column) → List (Option Column)
  | [] => []
  | slot :: slots =>
    match slot, trim slots with
    | none, [] => []
    | slot, slots => slot :: slots

/-- The column under a tag, and the context without it. -/
def remove (ctx : Context) (tag : Nat) : Option Column × Context :=
  if tag < ctx.slots.length then
    (ctx.get? tag, { ctx with slots := trim (ctx.slots.set tag none) })
  else (none, ctx)

/-! ## All columns -/

/-- All columns, by ascending tag. -/
def columns (ctx : Context) : List Column := ctx.slots.filterMap id

/-- The number of rows of the first column, 0 without columns. -/
def rowCount (ctx : Context) : Nat := (ctx.columns.head?.map Column.size).getD 0

/-- The number of columns. -/
def columnCount (ctx : Context) : Nat := ctx.columns.length

/-- The tags that have a column, ascending. -/
def tags (ctx : Context) : List Nat :=
  ctx.slots.zipIdx.filterMap fun (slot, i) => slot.map fun _ => i

/-- The context with every column replaced by what `f` makes of it. -/
def mapColumns (f : Column → Except Fault Column) (ctx : Context) : Except Fault Context := do
  return { ctx with slots := ← ctx.slots.mapM (Option.mapM f) }

/-- The rows that the offsets name, in every column. -/
def gather (ctx : Context) (offsets : List Nat) : Except Fault Context :=
  ctx.mapColumns (·.gather offsets)

/-- The rows that the offsets name, in every column; those that name none are absent. -/
def gatherOptional (ctx : Context) (offsets : List (Option Nat)) : Except Fault Context :=
  ctx.mapColumns (·.gatherOptional offsets)

end Context

end ColumnFlow
