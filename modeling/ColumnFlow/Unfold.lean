import ColumnFlow.Builder.Basic
import ColumnFlow.Context

/-!
# Unfolding

To unfold a column of paths or lists is to repeat each row of the context once for each element of
its path or list, and to put the elements into a column beside it. A row that is absent or has no
elements disappears. The number of rows that this may produce can be limited.
-/

namespace ColumnFlow

/-- The elements of a column, and for each the row that it comes from. -/
structure Unfolded where
  column : Column
  offsets : List Nat

namespace Unfolded

/-- Refuses more than `limit` rows. -/
def checkLimit (limit : Option UInt64) (rows : Nat) : Except Error Unit :=
  match limit with
  | some limit => if limit.toNat < rows then .error (.of (.rowLimit limit)) else .ok ()
  | none => .ok ()

/-- The vertices of the paths, behind those `visited` before, each with its row. The limit is
checked after each path. -/
def visitPaths (limit : Option UInt64) (visited : List (Nat × Vertex)) :
    List (Option Path × Nat) → Except Error (List (Nat × Vertex))
  | [] => .ok visited
  | (none, _) :: rows => visitPaths limit visited rows
  | (some path, row) :: rows => do
    let visited := visited ++ path.vertices.map (row, ·)
    checkLimit limit visited.length
    visitPaths limit visited rows

/-- The vertices of a column of paths. -/
def ofPaths (limit : Option UInt64) (c : PathColumn) : Except Failure Unfolded := do
  let rows ← orFault (RecordColumn.rows c)
  let visited ← orError (visitPaths limit [] rows.zipIdx)
  let vertices := (visited.map (·.2)).foldl MixedVertices.push (MixedVertices.empty false)
  return ⟨.vertex (.mixed vertices), visited.map (·.1)⟩

/-- The number of items of lists. -/
def itemCount (lists : List (Nat × ListValue)) : Nat :=
  lists.foldr (fun (_, l) n => l.items.length + n) 0

/-- The items of lists, each with the row that its list stands in. -/
def listItems (lists : List (Nat × ListValue)) : List (Nat × Value) :=
  lists.flatMap fun (row, l) => l.items.map (row, ·)

/-- The items of a column of lists that stand in the given rows. As long as the column knows no item
type it can only be unfolded if there are no items; the result then is as empty as the column. -/
def ofLists (limit : Option UInt64) (c : Column) (itemType : ElemType)
    (lists : List (Nat × ListValue)) : Except Failure Unfolded := do
  let total := itemCount lists
  orError (checkLimit limit total)
  if itemType = .null then
    if total = 0 then return ⟨← orFault (c.gather []), []⟩
    else throw (.error (.of (.itemTypeUnknown c.info)))
  else
    let items := listItems lists
    let builder ← orError (Builder.ofType itemType (items.any fun (_, item) => item.isNull))
    let builder ← orFault (builder.pushAll (items.map (·.2)))
    return ⟨builder.toColumn c.arena, items.map (·.1)⟩

/-- The lists that are present, each with its row. -/
def presentLists (c : Column) (cells : List ListValue) : Except Fault (List (Nat × ListValue)) := do
  let lists ← cells.zipIdx.mapM fun (l, row) => do
    return if ← c.hasValue row then some (row, l) else none
  return lists.filterMap id

/-- The elements of a column of paths or lists. -/
def ofColumn (limit : Option UInt64) (c : Column) : Except Failure Unfolded :=
  match c with
  | .path paths => ofPaths limit paths
  | .value ⟨.lists itemType cells, _⟩ | .optionalValue ⟨⟨.lists itemType cells, _⟩, _⟩ => do
    ofLists limit c itemType (← orFault (presentLists c cells))
  | _ => .error (.error (.of (.notImplemented s!"unfold for {c.info}")))

end Unfolded

/-- The context with the column under `key` unfolded and its elements put under `tag`. All other
columns are gathered to match; so is the column under `key`, unless its tag is the same. -/
def Context.unfold (ctx : Context) (key tag : Nat) (settings : Settings) :
    Except Failure Context := do
  match ctx.get? key with
  | none => throw (.error (.of (.missingKey key)))
  | some column =>
    let unfolded ← Unfolded.ofColumn settings.unfoldLimit column
    let gathered ← orFault (ctx.gather unfolded.offsets)
    orError (gathered.set tag unfolded.column)

end ColumnFlow
