import ColumnFlow.Builder.Values
import ColumnFlow.Builder.Vertices
import ColumnFlow.Column.Basic

/-!
# Column builders

A builder takes values one by one and makes a column of them. Null makes an absent row where the
builder has absent rows; a value of another type than the builder's is a fault.
-/

namespace ColumnFlow

/-- A column in the making. -/
inductive Builder where
  | single (c : SingleVertices)
  | segmented (b : SegmentBuilder)
  | mixed (c : MixedVertices)
  | edge (c : EdgeColumn)
  | value (b : ValueBuilder)
  | path (c : PathColumn)

namespace Builder

/-- A builder for rows of a type. The labels of vertices need not be known: they are mixed. -/
def ofType (type : ElemType) (optional : Bool) : Except Error Builder :=
  match type with
  | .null => .error (.of .columnOfNulls)
  | .vertex => .ok (mixed (MixedVertices.empty optional))
  | .edge => .ok (edge (RecordColumn.empty optional))
  | .path => .ok (path (RecordColumn.empty optional))
  | .list => .ok (value (ValueBuilder.ofStorage (.lists .null []) optional))
  | .bool => ofScalar .bool
  | .int32 => ofScalar .int32
  | .int64 => ofScalar .int64
  | .uint64 => ofScalar .uint64
  | .float64 => ofScalar .float64
  | .date => ofScalar .date
  | .day => ofScalar .day
  | .string => ofScalar .string
where
  /-- A builder for rows of a scalar type. -/
  ofScalar (t : ScalarType) : Except Error Builder :=
    .ok (value (ValueBuilder.ofStorage (.scalars t []) optional))

/-- One more row, with a value that is not null. -/
def pushValue (b : Builder) (v : Value) : Except Fault Builder :=
  match b with
  | single c =>
    match v.vertex? with
    | some x => single <$> c.push x
    | none => .error (.recordType .vertex v.elemType)
  | segmented c =>
    match v.vertex? with
    | some x => .ok (segmented (c.push x))
    | none => .error (.recordType .vertex v.elemType)
  | mixed c =>
    match v.vertex? with
    | some x => .ok (mixed (c.push x))
    | none => .error (.recordType .vertex v.elemType)
  | edge c =>
    match v.edge? with
    | some x => .ok (edge (c.push x))
    | none => .error (.recordType .edge v.elemType)
  | value c => value <$> c.push v
  | path c =>
    match v.path? with
    | some x => .ok (path (c.push x))
    | none => .error (.recordType .path v.elemType)

/-- One more row, absent. -/
def pushNull (b : Builder) : Except Fault Builder :=
  match b with
  | single c => single <$> c.pushNull
  | segmented _ => .error .nullSegment
  | mixed c => mixed <$> c.pushNull
  | edge c => edge <$> c.pushNull
  | value c => value <$> c.pushNull
  | path c => path <$> c.pushNull

/-- One more row: absent if the value is null. -/
def push (b : Builder) (v : Value) : Except Fault Builder :=
  if v.isNull then b.pushNull else b.pushValue v

/-- One more row for each value. -/
def pushAll (b : Builder) (values : List Value) : Except Fault Builder := values.foldlM push b

/-- The column of all rows. A value column refers to `arena`, and only to it. -/
def toColumn (arena : Option Arena) : Builder → Column
  | single c => .vertex (.single c)
  | segmented b => .vertex (.segmented b.finish)
  | mixed c => .vertex (.mixed c)
  | edge c => .edge c
  | value b =>
    match b.validity with
    | some validity => .optionalValue ⟨⟨b.storage, arena⟩, validity⟩
    | none => .value ⟨b.storage, arena⟩
  | path c => .path c

/-- The column of all rows. A value column refers to `arena` and to the texts that were copied. `id`
is the identity of their arena if it is new. -/
def finish (id : ArenaId) (arena : Option Arena) (b : Builder) : Column :=
  match b with
  | value v => b.toColumn (v.arena id arena)
  | _ => b.toColumn arena

end Builder

end ColumnFlow
