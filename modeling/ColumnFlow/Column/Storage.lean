import ColumnFlow.Column.Scalar
import ColumnFlow.Rows.Gather
import ColumnFlow.Rows.Ranking

/-!
# Storage of value columns

Storage holds the cells of one scalar type, or lists. Storage of lists also knows the type of their
items, as far as any list has told it: `null` stands for a type that is not known yet, and a list
of another known type is refused.
-/

namespace ColumnFlow

/-- The cells of a value column. -/
inductive Storage where
  | scalars (type : ScalarType) (cells : List type.Cell)
  | lists (itemType : ElemType) (cells : List ListValue)

/-- The item type of lists of two item types put together. -/
def mergeItemTypes (known incoming : ElemType) : Except Fault ElemType :=
  if known = .null then .ok incoming
  else if incoming = .null ∨ incoming = known then .ok known
  else .error (.itemType known incoming)

namespace Storage

/-- Storage without cells. Vertices, edges, paths and nulls are not stored this way. -/
def empty (type : ElemType) : Except Fault Storage :=
  match type.scalar? with
  | some t => .ok (.scalars t [])
  | none => if type = .list then .ok (.lists .null []) else .error (.notStored type)

/-- The type of the cells. -/
def elemType : Storage → ElemType
  | scalars t _ => t.elemType
  | lists _ _ => .list

/-- The type of the items of the lists, `null` for scalars. -/
def itemType : Storage → ElemType
  | scalars _ _ => .null
  | lists itemType _ => itemType

/-- The number of cells. -/
def size : Storage → Nat
  | scalars _ cells => cells.length
  | lists _ cells => cells.length

/-- The value in cell `i`. -/
def get (s : Storage) (i : Nat) : Except Fault Value :=
  match s with
  | scalars t cells => (t.toValue ·) <$> Rows.fetch cells i
  | lists _ cells => ListValue.toValue <$> Rows.fetch cells i

/-! ## Growing -/

/-- One more cell, with the value `v`. -/
def push (s : Storage) (v : Value) : Except Fault Storage :=
  match s with
  | scalars t cells =>
    match t.ofValue? v with
    | some cell => .ok (.scalars t (cells ++ [cell]))
    | none => .error (.valueType t.elemType v.elemType)
  | lists itemType cells =>
    match v.list? with
    | some l => do return .lists (← mergeItemTypes itemType l.itemType) (cells ++ [l])
    | none => .error (.valueType .list v.elemType)

/-- One more cell, for an absent row. -/
def pushPlaceholder : Storage → Storage
  | scalars t cells => .scalars t (cells ++ [t.placeholder])
  | lists itemType cells => .lists itemType (cells ++ [ListValue.empty itemType])

/-! ## Gathering and appending -/

/-- The cells that the offsets name. -/
def gather (s : Storage) (offsets : List Nat) : Except Fault Storage :=
  match s with
  | scalars t cells => (.scalars t ·) <$> Rows.gather cells offsets
  | lists itemType cells => (.lists itemType ·) <$> Rows.gather cells offsets

/-- The cells that the offsets name, placeholders where they name none. -/
def gatherOptional (s : Storage) (offsets : List (Option Nat)) : Except Fault Storage :=
  match s with
  | scalars t cells => (.scalars t ·) <$> Rows.gatherOptional t.placeholder cells offsets
  | lists itemType cells =>
    (.lists itemType ·) <$> Rows.gatherOptional (ListValue.empty itemType) cells offsets

/-- The cells of both, the first one's first. -/
def append : Storage → Storage → Except Fault Storage
  | scalars s xs, scalars t ys =>
    if h : s = t then .ok (.scalars t (h ▸ xs ++ ys))
    else .error (.storageMismatch s.elemType t.elemType)
  | lists itemType xs, lists otherType ys => do
    return .lists (← mergeItemTypes itemType otherType) (xs ++ ys)
  | s, t => .error (.storageMismatch s.elemType t.elemType)

/-! ## Comparing -/

/-- A number for each cell, the same number exactly for equal cells. -/
def signatures : Storage → List Nat
  | scalars t cells => t.signatures cells
  | lists _ cells => Rows.ordinals cells

/-- The best rows of ordered cells; lists have no order. -/
def best (s : Storage) (ascending : Bool) (limit : Nat) : Option (List Nat) :=
  match s with
  | scalars t cells => some (Rows.best t.compareCells ascending limit cells)
  | lists _ _ => none

/-- Whether two storages are of one type and equal cell by cell. Floats are compared as numbers,
but floats inside lists word for word. -/
protected def beq : Storage → Storage → Bool
  | scalars s xs, scalars t ys => if h : s = t then sameCells t (h ▸ xs) ys else false
  | lists itemType xs, lists otherType ys => decide (itemType = otherType) && decide (xs = ys)
  | _, _ => false
where
  /-- Equality cell by cell. -/
  sameCells (t : ScalarType) (xs ys : List t.Cell) : Bool :=
    xs.length == ys.length && (xs.zip ys).all fun c => t.sameCell c.1 c.2

instance : BEq Storage := ⟨Storage.beq⟩

end Storage

end ColumnFlow
