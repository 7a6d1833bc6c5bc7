import ColumnFlow.Bitmap

/-!
# Gathering rows

A gather makes a sequence from another: an offset for each row of the result names the row that it
comes from. A row may be named any number of times. In an optional gather a row may also have no
source. The first offset that names no row faults.
-/

namespace ColumnFlow

/-- The offset that names no row: the largest 64-bit word. -/
def noSource : Nat := 18446744073709551615

/-- The row that an offset of an optional gather names. -/
def source? (offset : Nat) : Option Nat := if offset = noSource then none else some offset

namespace Rows

variable {α : Type}

/-- Row `i`. -/
def fetch (cells : List α) (i : Nat) : Except Fault α :=
  match cells[i]? with
  | some cell => .ok cell
  | none => .error (.index cells.length i)

/-- The rows that the offsets name. -/
def gather (cells : List α) (offsets : List Nat) : Except Fault (List α) :=
  offsets.mapM (fetch cells)

/-- The rows that the offsets name, `placeholder` where they name none. -/
def gatherOptional (placeholder : α) (cells : List α) (offsets : List (Option Nat)) :
    Except Fault (List α) :=
  offsets.mapM fun
    | none => .ok placeholder
    | some i => fetch cells i

end Rows

namespace Bitmap

/-- The bits that the offsets name. -/
def gather (b : Bitmap) (offsets : List Nat) : Except Fault Bitmap := do
  return ofList (← offsets.mapM b.get)

/-- Whether the row that an offset names is present. Without a bitmap every row is. -/
def presentAt (validity : Option Bitmap) : Option Nat → Except Fault Bool
  | none => .ok false
  | some i =>
    match validity with
    | some b => b.get i
    | none => .ok true

/-- Ones, cleared where a row is absent. -/
def ofPresence (present : List Bool) : Bitmap :=
  present.zipIdx.foldl (fun b row => if row.1 then b else b.put row.2 false)
    (allTrue present.length)

/-- Presence after an optional gather: a row without a source is absent. -/
def gatherOptional (validity : Option Bitmap) (offsets : List (Option Nat)) :
    Except Fault Bitmap := do
  return ofPresence (← offsets.mapM (presentAt validity))

/-- Presence in two sequences of `m` and `n` rows, one after the other. No bitmap is needed if
neither has one. -/
def append (m : Nat) (a : Option Bitmap) (n : Nat) (b : Option Bitmap) : Option Bitmap :=
  match a, b with
  | none, none => none
  | _, _ => some (ofList (bits m a ++ bits n b))
where
  /-- The bits of `n` rows. -/
  bits (n : Nat) : Option Bitmap → List Bool
    | some b => b.toList
    | none => List.replicate n true

end Bitmap

end ColumnFlow
