import ColumnFlow.Value.Float64
import ColumnFlow.Value.Time

/-!
# Values

A value is one element as it leaves a column: null, a scalar, a text, a graph element, or a list of
values of one type. Two values are equal when they are of the same type and hold the same thing,
floats word for word and lists with their item types; `Value.beq_iff_eq` says that the
comparison decides exactly this.
-/

namespace ColumnFlow

/-- One element. -/
inductive Value where
  | null
  | bool (b : Bool)
  | int32 (n : Int32)
  | int64 (n : Int64)
  | uint64 (n : UInt64)
  | float64 (x : Float64)
  | date (d : Date)
  | day (d : Day)
  | string (s : String)
  | vertex (v : Vertex)
  | edge (e : Edge)
  | path (p : Path)
  | list (itemType : ElemType) (items : List Value)
  deriving Inhabited

namespace Value

/-- The type of a value. -/
def elemType : Value → ElemType
  | null => .null
  | bool _ => .bool
  | int32 _ => .int32
  | int64 _ => .int64
  | uint64 _ => .uint64
  | float64 _ => .float64
  | date _ => .date
  | day _ => .day
  | string _ => .string
  | vertex _ => .vertex
  | edge _ => .edge
  | path _ => .path
  | list _ _ => .list

/-- Whether a value is null. -/
def isNull : Value → Bool
  | null => true
  | _ => false

theorem isNull_iff {v : Value} : v.isNull = true ↔ v = null := by
  cases v <;> simp [isNull]

mutual

/-- Whether two values are equal. -/
protected def beq : Value → Value → Bool
  | null, null => true
  | bool a, bool b => a == b
  | int32 a, int32 b => a == b
  | int64 a, int64 b => a == b
  | uint64 a, uint64 b => a == b
  | float64 a, float64 b => decide (a = b)
  | date a, date b => decide (a = b)
  | day a, day b => decide (a = b)
  | string a, string b => a == b
  | vertex a, vertex b => decide (a = b)
  | edge a, edge b => decide (a = b)
  | path a, path b => decide (a = b)
  | list s as, list t bs => decide (s = t) && Value.beqItems as bs
  | _, _ => false

/-- Whether two lists of values are equal, item by item. -/
protected def beqItems : List Value → List Value → Bool
  | [], [] => true
  | a :: as, b :: bs => Value.beq a b && Value.beqItems as bs
  | _, _ => false

end

mutual

theorem beq_iff_eq : ∀ (a b : Value), Value.beq a b = true ↔ a = b
  | null, b => by cases b <;> simp [Value.beq]
  | bool _, b => by cases b <;> simp [Value.beq]
  | int32 _, b => by cases b <;> simp [Value.beq]
  | int64 _, b => by cases b <;> simp [Value.beq]
  | uint64 _, b => by cases b <;> simp [Value.beq]
  | float64 _, b => by cases b <;> simp [Value.beq]
  | date _, b => by cases b <;> simp [Value.beq]
  | day _, b => by cases b <;> simp [Value.beq]
  | string _, b => by cases b <;> simp [Value.beq]
  | vertex _, b => by cases b <;> simp [Value.beq]
  | edge _, b => by cases b <;> simp [Value.beq]
  | path _, b => by cases b <;> simp [Value.beq]
  | list _ as, b => by cases b <;> simp [Value.beq, beqItems_iff_eq as]

theorem beqItems_iff_eq : ∀ (as bs : List Value), Value.beqItems as bs = true ↔ as = bs
  | [], bs => by cases bs <;> simp [Value.beqItems]
  | a :: as, bs => by
    cases bs <;> simp [Value.beqItems, beq_iff_eq a, beqItems_iff_eq as]

end

instance : DecidableEq Value := fun a b =>
  decidable_of_iff (Value.beq a b = true) (beq_iff_eq a b)

end Value

/-- Values of one type, or null. `ofItems` refuses other items. -/
structure ListValue where
  itemType : ElemType
  items : List Value
  deriving DecidableEq

namespace ListValue

/-- The list of `items`, each null or of type `itemType`; the first item of another type is
reported. -/
def ofItems (itemType : ElemType) (items : List Value) : Except Error ListValue :=
  match items.find? fun item => !item.isNull && item.elemType != itemType with
  | some item => .error (.of (.itemMismatch item.elemType itemType))
  | none => .ok ⟨itemType, items⟩

/-- The list without items. -/
def empty (itemType : ElemType) : ListValue := ⟨itemType, []⟩

/-- The list as a value. -/
def toValue (l : ListValue) : Value := .list l.itemType l.items

theorem toValue_inj {a b : ListValue} : a.toValue = b.toValue ↔ a = b := by
  cases a
  cases b
  simp [toValue]

end ListValue

namespace Value

/-- The vertex that a value is. -/
def vertex? : Value → Option Vertex
  | vertex v => some v
  | _ => none

/-- The edge that a value is. -/
def edge? : Value → Option Edge
  | edge e => some e
  | _ => none

/-- The path that a value is. -/
def path? : Value → Option Path
  | path p => some p
  | _ => none

/-- The text that a value is. -/
def string? : Value → Option String
  | string s => some s
  | _ => none

/-- The list that a value is. -/
def list? : Value → Option ListValue
  | list itemType items => some ⟨itemType, items⟩
  | _ => none

end Value

end ColumnFlow
