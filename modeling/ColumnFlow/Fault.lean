import ColumnFlow.ElemType
import ColumnFlow.Graph

/-!
# Faults

A fault says that a caller broke a rule of an operation: a row that does not exist, a value of
another type than the column's, a gather that the representation does not have. A correct plan
never runs into one; what a plan can run into are the errors of `ColumnFlow.Error`.
-/

namespace ColumnFlow

/-- The families of columns, as faults name them. -/
inductive Family where
  | vertex
  | edge
  | path
  | value
  deriving DecidableEq

/-- The noun for a family. -/
def Family.noun : Family → String
  | vertex => "vertex"
  | edge => "edge"
  | path => "path"
  | value => "value"

/-- A rule of an operation, broken by its caller. -/
inductive Fault where
  /-- Element `index` was read from a sequence of `len` elements. -/
  | index (len index : Nat)
  /-- Bit `index` of a bitmap of `len` bits was read or written. -/
  | bit (len index : Nat)
  /-- A row of a column without a bitmap was asked for, and there is no such row. -/
  | row (family : Family)
  /-- A vertex was read from a segmented column of `len` rows, beyond its end. -/
  | segmentedRow (len : Nat)
  /-- A segmented column can't be gathered with rows that have no source. -/
  | segmentedGather (info : String)
  /-- Segmented columns can't be appended to, nor appended. -/
  | segmentedAppend (left right : String)
  /-- Columns of different kinds or element types can't be appended. -/
  | appendMismatch (left right : String)
  /-- Storage of different element types can't be appended. -/
  | storageMismatch (left right : ElemType)
  /-- A list column knows another item type than that of an incoming list. -/
  | itemType (column incoming : ElemType)
  /-- Values of this type are not stored in value columns. -/
  | notStored (type : ElemType)
  /-- A value column of one type was given a value of another. -/
  | valueType (column incoming : ElemType)
  /-- A builder of vertices, edges or paths was given a value of another type. -/
  | recordType (family : Family) (incoming : ElemType)
  /-- A single-label builder was given a vertex of another label. -/
  | labelMismatch (expected incoming : Label)
  /-- A vertex, edge or path builder that has no absent rows was asked for one. -/
  | nullRefused
  /-- A value builder that has no absent rows was asked for one. -/
  | nullValueRefused (type : ElemType)
  /-- Segmented columns have no absent rows. -/
  | nullSegment
  /-- A vertex id was given before any label was. -/
  | labelNotStarted
  deriving DecidableEq

/-- The text that reports a fault. -/
def Fault.message : Fault → String
  | index len i => s!"index out of bounds: the len is {len} but the index is {i}"
  | bit len i => s!"bitmap index {i} out of bounds for length {len}"
  | row family => s!"{family.noun} index out of bounds"
  | segmentedRow len => s!"vertex index out of bounds for MSVertexColumn[{len}]"
  | segmentedGather info => s!"optional_shuffle not implemented for {info}"
  | segmentedAppend left right => s!"union_col not implemented for {left} and {right}"
  | appendMismatch left right => s!"cannot union {left} with {right}"
  | storageMismatch left right => s!"cannot concat {left.name} values with {right.name} values"
  | itemType column incoming =>
    s!"list item type {incoming.name} does not match column item type {column.name}"
  | notStored type => s!"{type.name} values are not stored in value columns"
  | valueType column incoming => s!"{column.name} value column received {incoming.name}"
  | recordType family incoming => s!"{family.noun} column builder received {incoming.name}"
  | labelMismatch expected incoming =>
    "assertion `left == right` failed: single label vertex builder received a different label\n" ++
      s!"  left: {expected}\n right: {incoming}"
  | nullRefused => "push_back_null on non-optional builder"
  | nullValueRefused type => s!"push_back_null not implemented for ValueColumnBuilder<{type.name}>"
  | nullSegment => "multi-segment vertex columns can't hold nulls"
  | labelNotStarted => "push_back_opt called before start_label"

end ColumnFlow
