/-!
# Element types

The tag that says what the rows of a column hold, and how the tag is written in descriptions and
messages.
-/

namespace ColumnFlow

/-- What one element is: the type of a value, of a column's rows, or of a list's items. -/
inductive ElemType where
  | null
  | bool
  | int32
  | int64
  | uint64
  | float64
  /-- A point in time, in milliseconds. -/
  | date
  /-- A calendar day. -/
  | day
  | string
  | vertex
  | edge
  | path
  | list
  deriving DecidableEq

namespace ElemType

/-- The written form of an element type. -/
def name : ElemType → String
  | null => "Null"
  | bool => "Bool"
  | int32 => "Int32"
  | int64 => "Int64"
  | uint64 => "UInt64"
  | float64 => "Float64"
  | date => "Date"
  | day => "Day"
  | string => "String"
  | vertex => "Vertex"
  | edge => "Edge"
  | path => "Path"
  | list => "List"

/-- Every element type, in the order of their declaration. -/
def all : List ElemType :=
  [null, bool, int32, int64, uint64, float64, date, day, string, vertex, edge, path, list]

/-- The element type with the written form `text`. -/
def ofName? (text : String) : Option ElemType :=
  all.find? fun type => type.name = text

end ElemType

end ColumnFlow
