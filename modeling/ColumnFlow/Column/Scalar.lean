import ColumnFlow.Rows.Ordinal
import ColumnFlow.Value.Order

/-!
# Scalar cells

The types of value that a value column stores as such. A cell of such a type is a value of that
type, ready to be stored: `ScalarType.ofValue?` takes it out of a value, and `ScalarType.toValue`
makes a value of it.
-/

namespace ColumnFlow

/-- The element types whose values are stored cell by cell. -/
inductive ScalarType where
  | bool
  | int32
  | int64
  | uint64
  | float64
  | date
  | day
  | string
  deriving DecidableEq

namespace ScalarType

/-- The scalar type as an element type. -/
def elemType : ScalarType → ElemType
  | bool => .bool
  | int32 => .int32
  | int64 => .int64
  | uint64 => .uint64
  | float64 => .float64
  | date => .date
  | day => .day
  | string => .string

/-- What a cell of a scalar type is. -/
@[reducible] def Cell : ScalarType → Type
  | bool => Bool
  | int32 => Int32
  | int64 => Int64
  | uint64 => UInt64
  | float64 => Float64
  | date => Date
  | day => Day
  | string => String

instance decidableEqCell : (t : ScalarType) → DecidableEq t.Cell
  | bool => inferInstanceAs (DecidableEq Bool)
  | int32 => inferInstanceAs (DecidableEq Int32)
  | int64 => inferInstanceAs (DecidableEq Int64)
  | uint64 => inferInstanceAs (DecidableEq UInt64)
  | float64 => inferInstanceAs (DecidableEq Float64)
  | date => inferInstanceAs (DecidableEq Date)
  | day => inferInstanceAs (DecidableEq Day)
  | string => inferInstanceAs (DecidableEq String)

/-- The value in a cell. -/
def toValue : (t : ScalarType) → t.Cell → Value
  | bool, c => .bool c
  | int32, c => .int32 c
  | int64, c => .int64 c
  | uint64, c => .uint64 c
  | float64, c => .float64 c
  | date, c => .date c
  | day, c => .day c
  | string, c => .string c

/-- The cell that stores a value, if the value is of the type. -/
def ofValue? : (t : ScalarType) → Value → Option t.Cell
  | bool, .bool c => some c
  | int32, .int32 c => some c
  | int64, .int64 c => some c
  | uint64, .uint64 c => some c
  | float64, .float64 c => some c
  | date, .date c => some c
  | day, .day c => some c
  | string, .string c => some c
  | _, _ => none

theorem ofValue?_eq_some_iff {t : ScalarType} {v : Value} {c : t.Cell} :
    t.ofValue? v = some c ↔ v = t.toValue c := by
  cases t <;> cases v <;> simp [ofValue?, toValue]

@[simp] theorem elemType_toValue (t : ScalarType) (c : t.Cell) :
    (t.toValue c).elemType = t.elemType := by
  cases t <;> rfl

/-- The cell stored where a row is absent. -/
def placeholder : (t : ScalarType) → t.Cell
  | bool => false
  | int32 => (0 : Int32)
  | int64 => (0 : Int64)
  | uint64 => (0 : UInt64)
  | float64 => Float64.zero
  | date => Date.epoch
  | day => Day.zero
  | string => ""

/-- The order of cells: false before true, numbers and dates by size, floats by their total order,
texts by their bytes. -/
def compareCells : (t : ScalarType) → t.Cell → t.Cell → Ordering
  | bool, a, b => compare a b
  | int32, a, b => compare a b
  | int64, a, b => compare a b
  | uint64, a, b => compare a b
  | float64, a, b => compare a b
  | date, a, b => compare a b
  | day, a, b => compare a b
  | string, a, b => Text.compareBytes a b

/-- Equality of cells as the stored type has it: that of numbers for floats. -/
def sameCell : (t : ScalarType) → t.Cell → t.Cell → Bool
  | float64, a, b => a.numEq b
  | t, a, b => decide (@Eq t.Cell a b)

/-- A number for each cell, the same number exactly for equal cells. Texts are numbered in the
order of their first appearance; all other cells fit a word, which is their number: integers and
dates as unsigned words, floats bit for bit. -/
def signatures : (t : ScalarType) → List t.Cell → List Nat
  | bool, cells => cells.map Bool.toNat
  | int32, cells => cells.map fun c => c.toUInt32.toNat
  | int64, cells => cells.map fun c => c.toUInt64.toNat
  | uint64, cells => cells.map fun c => c.toNat
  | float64, cells => cells.map fun c => c.bits.toNat
  | date, cells => cells.map fun c => c.millis.toUInt64.toNat
  | day, cells => cells.map fun c => c.packed.toNat
  | string, cells => Rows.ordinals cells

end ScalarType

/-- The scalar type that is an element type. -/
def ElemType.scalar? : ElemType → Option ScalarType
  | .bool => some .bool
  | .int32 => some .int32
  | .int64 => some .int64
  | .uint64 => some .uint64
  | .float64 => some .float64
  | .date => some .date
  | .day => some .day
  | .string => some .string
  | _ => none

theorem ElemType.scalar?_eq_some_iff {e : ElemType} {t : ScalarType} :
    e.scalar? = some t ↔ e = t.elemType := by
  cases e <;> cases t <;> simp [scalar?, ScalarType.elemType]

end ColumnFlow
