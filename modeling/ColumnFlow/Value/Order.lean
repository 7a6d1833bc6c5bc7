import ColumnFlow.Value.Basic
import ColumnFlow.Value.Text

/-!
# Sorting values

Values of one type can be sorted if the type is ordered: dates, days, strings, vertices and edges.
-/

namespace ColumnFlow

namespace Value

/-- The order of two values of one ordered type. Values of different types, or of a type without
an order, rank equal. -/
def compareSame : Value → Value → Ordering
  | date a, date b => compare a b
  | day a, day b => compare a b
  | string a, string b => Text.compareBytes a b
  | vertex a, vertex b => compare a b
  | edge a, edge b => compare a b
  | _, _ => .eq

/-- The values in ascending order; equal ones keep their order. -/
def sort (values : List Value) : List Value :=
  values.mergeSort fun a b => (compareSame a b).isLE

end Value

end ColumnFlow
