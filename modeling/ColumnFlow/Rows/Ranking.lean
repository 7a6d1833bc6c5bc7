/-!
# Ranking rows

The best rows of a sequence: the smallest, or the largest if the order is descending. Of equal rows
the earlier one is better, in both directions. Only as many rows are kept at any time as the result
has.
-/

namespace ColumnFlow.Rows

variable {α : Type}

/-- Whether the first of two rows is better than the second. -/
def better (cmp : α → α → Ordering) (ascending : Bool) (a b : α × Nat) : Bool :=
  ((if ascending then cmp a.1 b.1 else cmp b.1 a.1).then (compare a.2 b.2)).isLT

/-- The rows kept, best first, with a row put in its place. -/
def insertRow (cmp : α → α → Ordering) (ascending : Bool) (row : α × Nat) :
    List (α × Nat) → List (α × Nat)
  | [] => [row]
  | kept :: rows =>
    if better cmp ascending row kept then row :: kept :: rows
    else kept :: insertRow cmp ascending row rows

/-- The best `limit` rows, best first. -/
def best (cmp : α → α → Ordering) (ascending : Bool) (limit : Nat) (cells : List α) : List Nat :=
  (cells.zipIdx.foldl (fun kept row => (insertRow cmp ascending row kept).take limit) []).map (·.2)

end ColumnFlow.Rows
