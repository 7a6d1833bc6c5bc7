/-!
# Dense ordinals

Keys are numbered in the order of their first appearance: a key that has appeared before keeps its
number, a new key takes the next one.
-/

namespace ColumnFlow.Rows

variable {α : Type} [DecidableEq α]

/-- The ordinals of `keys`, where the keys of `seen` have the ordinals of their places in it. -/
def ordinalsAfter (seen : List α) : List α → List Nat
  | [] => []
  | key :: keys =>
    if key ∈ seen then seen.idxOf key :: ordinalsAfter seen keys
    else seen.length :: ordinalsAfter (seen ++ [key]) keys

/-- The ordinal of each key. -/
def ordinals (keys : List α) : List Nat := ordinalsAfter [] keys

end ColumnFlow.Rows
