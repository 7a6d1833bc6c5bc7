/-!
# Grouping rows

Rows are grouped by a number that each one carries. Groups stand in the order of their first rows,
and the rows of a group in ascending order.
-/

namespace ColumnFlow.Rows

/-- The rows that carry `key`: the first one, and those after it. -/
structure Group where
  key : Nat
  first : Nat
  rest : List Nat
  deriving DecidableEq

/-- All rows of a group. -/
def Group.rows (g : Group) : List Nat := g.first :: g.rest

/-- The groups with `row` added: to the group of its key, or in a new group at the end. -/
def addRow (key row : Nat) : List Group → List Group
  | [] => [⟨key, row, []⟩]
  | g :: groups =>
    if g.key = key then { g with rest := g.rest ++ [row] } :: groups
    else g :: addRow key row groups

/-- The groups of the rows that carry `keys`. -/
def groups (keys : List Nat) : List Group :=
  keys.zipIdx.foldl (fun groups entry => addRow entry.1 entry.2 groups) []

/-- The rows that carry `keys`, from row `row` on, less those with a key that has been `seen` or
stands before theirs. -/
def firstRowsFrom (row : Nat) (seen : List Nat) : List Nat → List Nat
  | [] => []
  | key :: keys =>
    if key ∈ seen then firstRowsFrom (row + 1) seen keys
    else row :: firstRowsFrom (row + 1) (key :: seen) keys

/-- The rows whose key no earlier row carries. -/
def firstRows (keys : List Nat) : List Nat := firstRowsFrom 0 [] keys

end ColumnFlow.Rows
