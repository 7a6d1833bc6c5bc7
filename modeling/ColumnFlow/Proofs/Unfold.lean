import Mathlib.Data.List.Induction
import ColumnFlow.Proofs.Context
import ColumnFlow.Unfold

/-!
# What unfolding makes

The elements of a column are those of its present rows, in order, each with its row. Unfolding puts
them into a column of their own and gathers all other columns by their rows, so that every element
stands beside the row that it comes from (`Context.unfold_exact`).
-/

namespace ColumnFlow

open Rows

/-- The vertices of a path, or the items of a list. -/
def Value.elements : Value → List Value
  | path p => p.vertices.map Value.vertex
  | list _ items => items
  | _ => []

namespace Rows

variable {α : Type}

/-- What `f` makes of the values that are present, each with its row, counted from `n` on. -/
def elementsFrom (n : Nat) (f : α → List Value) (rows : List (Option α)) : List (Nat × Value) :=
  (rows.zipIdx n).flatMap fun (row, i) => (row.elim [] f).map (i, ·)

theorem elementsFrom_cons (n : Nat) (f : α → List Value) (row : Option α)
    (rows : List (Option α)) :
    elementsFrom n f (row :: rows) = (row.elim [] f).map (n, ·) ++ elementsFrom (n + 1) f rows :=
  rfl

theorem elementsFrom_map {β : Type} (n : Nat) (f : β → List Value) (g : α → β)
    (rows : List (Option α)) :
    elementsFrom n f (rows.map (Option.map g)) = elementsFrom n (fun a => f (g a)) rows := by
  induction rows generalizing n with
  | nil => rfl
  | cons row rows ih =>
    rw [List.map_cons, elementsFrom_cons, elementsFrom_cons, ih]
    cases row <;> rfl

theorem mem_elementsFrom {n : Nat} {f : α → List Value} {rows : List (Option α)}
    {e : Nat × Value} (h : e ∈ elementsFrom n f rows) : ∃ a, some a ∈ rows ∧ e.2 ∈ f a := by
  obtain ⟨⟨row, i⟩, hrow, he⟩ := List.mem_flatMap.1 h
  obtain ⟨v, hv, rfl⟩ := List.mem_map.1 he
  cases row with
  | none => exact absurd hv List.not_mem_nil
  | some a => exact ⟨a, List.mem_of_getElem? (List.mem_zipIdx_iff_le_and_getElem?_sub.1 hrow).2, hv⟩

end Rows

/-- The elements of the present rows, in order, each with its row. -/
def Column.elements (c : Column) : List (Nat × Value) := elementsFrom 0 Value.elements c.rows

/-- No list in a present row has the reserved vertex among its items. -/
def Column.ItemsReal (c : Column) : Prop :=
  ∀ (itemType : ElemType) (items : List Value), some (Value.list itemType items) ∈ c.rows →
    ∀ v ∈ items, v.isReserved = false

theorem orFault_eq_ok_iff {α : Type} {x : Except Fault α} {a : α} :
    orFault x = .ok a ↔ x = .ok a := by
  cases x <;> simp [orFault]

theorem orError_eq_ok_iff {α : Type} {x : Except Error α} {a : α} :
    orError x = .ok a ↔ x = .ok a := by
  cases x <;> simp [orError]

namespace Unfolded

variable {limit : Option UInt64} {c : Column} {u : Unfolded}

/-- The elements of a column, one in each row, and the rows that they come from. -/
structure Unfolds (c : Column) (u : Unfolded) : Prop where
  offsets_eq : u.offsets = c.elements.map (·.1)
  readable : u.column.Readable
  rows_eq : u.column.rows = c.elements.map fun e => e.2.toRow

/-! ## Paths -/

/-- The vertices of the present paths, each with its row. -/
def pathVertices (rows : List (Option Path × Nat)) : List (Nat × Vertex) :=
  rows.flatMap fun (row, i) => (row.elim [] Path.vertices).map (i, ·)

theorem visitPaths_eq {visited out : List (Nat × Vertex)} {rows : List (Option Path × Nat)}
    (h : visitPaths limit visited rows = .ok out) : out = visited ++ pathVertices rows := by
  induction rows generalizing visited with
  | nil =>
    cases h
    exact (List.append_nil _).symm
  | cons entry rows ih =>
    obtain ⟨_ | path, row⟩ := entry
    · exact ih h
    · obtain ⟨_, -, h⟩ := bind_eq_ok_iff.1 h
      rw [ih h, List.append_assoc]
      rfl

theorem elementsFrom_vertices (n : Nat) (rows : List (Option Path)) :
    elementsFrom n (fun p => p.vertices.map Value.vertex) rows
      = (pathVertices (rows.zipIdx n)).map fun e => (e.1, .vertex e.2) := by
  induction rows generalizing n with
  | nil => rfl
  | cons row rows ih =>
    rw [elementsFrom_cons, ih, List.zipIdx_cons]
    show _ = ((row.elim [] Path.vertices).map (n, ·) ++ pathVertices (rows.zipIdx (n + 1))).map _
    rw [List.map_append]
    cases row with
    | none => rfl
    | some path => simp

/-- Vertices, each with its row, as a column. -/
def ofVertices (visited : List (Nat × Vertex)) : Unfolded :=
  ⟨.vertex (.mixed ⟨visited.map (·.2), LabelSet.ofList (visited.map (·.2.label)), false⟩),
    visited.map (·.1)⟩

/-- Vertices that are pushed one after the other stand in this order, over the set of their
labels. -/
theorem foldl_push_eq (vs : List Vertex) :
    vs.foldl MixedVertices.push (MixedVertices.empty false)
      = ⟨vs, LabelSet.ofList (vs.map Vertex.label), false⟩ := by
  induction vs using List.reverseRecOn with
  | nil => rfl
  | append_singleton vs v ih =>
    have hlabels : (LabelSet.ofList (vs.map Vertex.label)).insert v.label
        = LabelSet.ofList ((vs ++ [v]).map Vertex.label) := LabelSet.ext fun l => by simp [or_comm]
    rw [List.foldl_append, ih, ← hlabels]
    rfl

theorem exists_of_ofPaths {paths : PathColumn} (h : ofPaths limit paths = .ok u) :
    ∃ rows visited, RecordColumn.rows paths = .ok rows ∧
      visitPaths limit [] rows.zipIdx = .ok visited ∧ u = ofVertices visited := by
  obtain ⟨rows, hrows, h⟩ := bind_eq_ok_iff.1 h
  obtain ⟨visited, hvisited, ⟨⟩⟩ := bind_eq_ok_iff.1 h
  refine ⟨rows, visited, orFault_eq_ok_iff.1 hrows, orError_eq_ok_iff.1 hvisited, ?_⟩
  rw [ofVertices, foldl_push_eq, List.map_map]
  rfl

/-- All rows of a column of vertices that is not optional are present. -/
theorem contents_of_vertices {c : MixedVertices} (h : c.optional = false) :
    (Column.vertex (.mixed c)).contents = c.vertices.map fun v => some (.vertex v) := by
  rw [Column.contents, VertexColumn.contents, List.map_map]
  apply List.map_congr_left
  intro v _
  simp [VertexColumn.optional, h, VertexColumn.meaning]

theorem unfolds_of_ofPaths {paths : PathColumn} (h : ofPaths limit paths = .ok u) :
    Unfolds (.path paths) u := by
  obtain ⟨rows, visited, hrows, hvisited, rfl⟩ := exists_of_ofPaths h
  obtain ⟨bits, hbits, rfl⟩ := mapM_zipIdx_eq_ok_iff.1 hrows
  rw [List.zipIdx_map_fst] at hvisited
  have hget : ∀ (i : Nat) (p : Path), paths.cells[i]? = some p →
      (Column.path paths).get i = .ok (.path p) := by
    intro i p hp
    exact map_eq_ok_iff.2 ⟨p, RecordColumn.get_eq_ok_iff.2 hp, rfl⟩
  have hmask := Column.rows_eq_mask (f := Value.path) rfl hget hbits
  have helements : (Column.path paths).elements = visited.map fun e => (e.1, .vertex e.2) := by
    rw [Column.elements, hmask, elementsFrom_map, visitPaths_eq hvisited, List.nil_append]
    exact elementsFrom_vertices 0 _
  have halign : (ofVertices visited).column.Aligned := trivial
  refine ⟨?_, Column.readable_of_aligned halign, ?_⟩
  · rw [helements, List.map_map]
    rfl
  · have hcontents : (ofVertices visited).column.contents = _ := contents_of_vertices rfl
    rw [Column.rows_eq_contents halign, hcontents, helements, List.map_map, List.map_map]
    rfl

/-! ## Lists -/

theorem listItems_mask (n : Nat) (cells : List ListValue) (bits : List Bool) :
    listItems ((mask ((cells.zipIdx n).map fun entry => (entry.2, entry.1)) bits).filterMap id)
      = elementsFrom n ListValue.items (mask cells bits) := by
  induction cells generalizing n bits with
  | nil => rfl
  | cons l cells ih =>
    cases bits with
    | nil => rfl
    | cons bit bits =>
      have hmask : mask (l :: cells) (bit :: bits) = keep l bit :: mask cells bits := rfl
      rw [hmask, elementsFrom_cons, ← ih]
      cases bit <;> rfl

theorem itemCount_eq (lists : List (Nat × ListValue)) :
    itemCount lists = (listItems lists).length := by
  induction lists with
  | nil => rfl
  | cons entry lists ih =>
    show entry.2.items.length + itemCount lists = _
    rw [ih, listItems, listItems, List.flatMap_cons, List.length_append, List.length_map]

/-- The items of the present lists are the elements of the column. -/
theorem listItems_of_presentLists {cells : List ListValue} {lists : List (Nat × ListValue)}
    (hsize : c.size = cells.length)
    (hget : ∀ (i : Nat) (l : ListValue), cells[i]? = some l → c.get i = .ok l.toValue)
    (h : presentLists c cells = .ok lists) :
    listItems lists = c.elements ∧ (c.ItemsReal → ∀ e ∈ c.elements, e.2.isReserved = false) := by
  obtain ⟨rows, hrows, ⟨⟩⟩ := bind_eq_ok_iff.1 h
  -- the rows were read without a fault, so their presence bits are known
  obtain ⟨bits, hbits, rfl⟩ := mapM_zipIdx_eq_ok_iff.1 hrows
  have hmask := Column.rows_eq_mask (f := ListValue.toValue) hsize hget hbits
  have helements : c.elements = elementsFrom 0 ListValue.items (mask cells bits) := by
    rw [Column.elements, hmask, elementsFrom_map]
    rfl
  refine ⟨helements ▸ listItems_mask 0 cells bits, fun hreal e he => ?_⟩
  rw [helements] at he
  obtain ⟨l, hl, hitem⟩ := mem_elementsFrom he
  refine hreal l.itemType l.items ?_ e.2 hitem
  rw [hmask]
  exact List.mem_map_of_mem hl

/-- Lists are unfolded to nothing if no item type is known, and otherwise by pushing their items to
a new builder. -/
theorem ofLists_eq_ok {itemType : ElemType} {lists : List (Nat × ListValue)}
    (h : ofLists limit c itemType lists = .ok u) :
    (listItems lists = [] ∧ c.gather [] = .ok u.column ∧ u.offsets = []) ∨
      ∃ b b', Builder.Fresh b ∧ b.pushAll ((listItems lists).map (·.2)) = .ok b' ∧
        u.column = b'.toColumn c.arena ∧ u.offsets = (listItems lists).map (·.1) := by
  obtain ⟨_, -, h⟩ := bind_eq_ok_iff.1 h
  by_cases hnull : itemType = .null
  · rw [if_pos hnull] at h
    by_cases htotal : itemCount lists = 0
    · rw [if_pos htotal] at h
      obtain ⟨gathered, hgathered, ⟨⟩⟩ := bind_eq_ok_iff.1 h
      rw [itemCount_eq, List.length_eq_zero_iff] at htotal
      exact .inl ⟨htotal, orFault_eq_ok_iff.1 hgathered, rfl⟩
    · rw [if_neg htotal] at h
      cases h
  · rw [if_neg hnull] at h
    obtain ⟨b, hb, h⟩ := bind_eq_ok_iff.1 h
    obtain ⟨b', hb', ⟨⟩⟩ := bind_eq_ok_iff.1 h
    have hfresh := Builder.fresh_of_ofType (orError_eq_ok_iff.1 hb)
    exact .inr ⟨b, b', hfresh, orFault_eq_ok_iff.1 hb', rfl, rfl⟩

theorem unfolds_of_ofLists {itemType : ElemType} {lists : List (Nat × ListValue)}
    (hlists : listItems lists = c.elements) (hreal : ∀ e ∈ c.elements, e.2.isReserved = false)
    (h : ofLists limit c itemType lists = .ok u) : Unfolds c u := by
  rcases ofLists_eq_ok h with ⟨hnil, hcolumn, hoffsets⟩ | ⟨b, b', hfresh, hpush, hcolumn, hoffsets⟩
  · -- no items: the result is as empty as the column
    have hsize : u.column.size = 0 := Column.size_of_gather hcolumn
    rw [hlists] at hnil
    refine ⟨by rw [hoffsets, hnil]; rfl, fun i hi => ?_, by rw [hnil, Column.rows, hsize]; rfl⟩
    rw [hsize] at hi
    exact absurd hi (Nat.not_lt_zero i)
  · have hitems : ∀ v ∈ (listItems lists).map (·.2), v.isReserved = false := by
      intro v hv
      obtain ⟨e, he, rfl⟩ := List.mem_map.1 hv
      exact hreal e (hlists ▸ he)
    obtain ⟨ha, hcontents⟩ := Builder.contents_of_pushAll hfresh.aligned hitems hpush
    have halign := Builder.aligned_toColumn ha c.arena
    refine ⟨by rw [hoffsets, hlists], hcolumn ▸ Column.readable_of_aligned halign, ?_⟩
    rw [hcolumn, Column.rows_eq_contents halign, Builder.contents_toColumn, hcontents,
      hfresh.contents_eq, List.nil_append, hlists, List.map_map]
    rfl

theorem unfolds_of_lists {itemType : ElemType} {cells : List ListValue} (hreal : c.ItemsReal)
    (hsize : c.size = cells.length)
    (hget : ∀ (i : Nat) (l : ListValue), cells[i]? = some l → c.get i = .ok l.toValue)
    (h : (do ofLists limit c itemType (← orFault (presentLists c cells))) = .ok u) :
    Unfolds c u := by
  obtain ⟨lists, hlists, h⟩ := bind_eq_ok_iff.1 h
  obtain ⟨hitems, hallowed⟩ :=
    listItems_of_presentLists hsize hget (orFault_eq_ok_iff.1 hlists)
  exact unfolds_of_ofLists hitems (hallowed hreal) h

/-- If a column can be unfolded, its elements are what comes out. -/
theorem unfolds_of_ofColumn (hreal : c.ItemsReal) (h : ofColumn limit c = .ok u) :
    Unfolds c u := by
  have hget : ∀ (itemType : ElemType) (cells : List ListValue) (i : Nat) (l : ListValue),
      cells[i]? = some l → (Storage.lists itemType cells).get i = .ok l.toValue := by
    intro itemType cells i l hl
    exact map_eq_ok_iff.2 ⟨l, fetch_eq_ok_iff.2 hl, rfl⟩
  cases c with
  | path paths => exact unfolds_of_ofPaths h
  | value c =>
    obtain ⟨⟨t, cells⟩ | ⟨itemType, cells⟩, arena⟩ := c
    · cases h
    · exact unfolds_of_lists hreal rfl (hget itemType cells) h
  | optionalValue c =>
    obtain ⟨⟨⟨t, cells⟩ | ⟨itemType, cells⟩, arena⟩, validity⟩ := c
    · cases h
    · exact unfolds_of_lists hreal rfl (hget itemType cells) h
  | vertex c | edge c => cases h

end Unfolded

namespace Context

/-- The context that unfolding the column under `key` makes: its elements under `tag`, one in each
row, absent where an element is null; under every other tag the row that each element comes from. -/
structure UnfoldedTo (ctx : Context) (column : Column) (tag : Nat) (out : Context) : Prop where
  elements : ∃ made, out.get? tag = some made ∧ made.size = column.elements.length ∧
    made.Readable ∧ made.rows = column.elements.map fun e => e.2.toRow
  gathered : ∀ a ≠ tag, ∀ old, ctx.get? a = some old →
    ∃ new, old.gather (column.elements.map (·.1)) = .ok new ∧ out.get? a = some new
  mem_tags : ∀ a, a ∈ out.tags ↔ a ∈ ctx.tags ∨ a = tag
  rowCount_eq : out.rowCount = column.elements.length

variable {ctx out : Context}

/-- Gathering a context by the rows of the elements and putting the elements into it. -/
theorem unfoldedTo_of_set {column : Column} {u : Unfolded} {gathered : Context} {tag : Nat}
    (hu : u.Unfolds column) (hgathered : ctx.gather u.offsets = .ok gathered)
    (hset : gathered.set tag u.column = .ok out) : UnfoldedTo ctx column tag out := by
  have hget := get?_of_set hset
  have hold := get?_of_gather hgathered
  have hsize : u.column.size = column.elements.length := by
    have hrows := congrArg List.length hu.rows_eq
    rwa [Column.rows, List.length_map, List.length_range, List.length_map] at hrows
  have hlen : u.offsets.length = column.elements.length := by
    rw [hu.offsets_eq, List.length_map]
  have htag : out.get? tag = some u.column := by rw [hget, if_pos rfl]
  refine ⟨⟨u.column, htag, hsize, hu.readable, hu.rows_eq⟩, ?_, ?_, ?_⟩
  · intro a hne old hctx
    rcases hold a with ⟨hnone, -⟩ | ⟨c, d, hc, hd, hsome⟩
    · rw [hctx] at hnone
      cases hnone
    · obtain rfl := Option.some.inj (hctx.symm.trans hc)
      exact ⟨d, hu.offsets_eq ▸ hd, by rw [hget, if_neg hne, hsome]⟩
  · intro a
    rw [Context.mem_tags, Context.mem_tags, hget]
    by_cases ha : a = tag
    · simp [ha]
    · rw [if_neg ha, or_iff_left ha]
      rcases hold a with ⟨hnone, hnone'⟩ | ⟨c, d, hc, -, hsome⟩
      · simp [hnone, hnone']
      · simp [hc, hsome]
  · -- the new column and the gathered ones have one size
    refine Context.rowCount_eq htag fun b c hb => ?_
    rw [hget] at hb
    by_cases hbt : b = tag
    · rw [if_pos hbt] at hb
      cases hb
      exact hsize
    · rw [if_neg hbt] at hb
      rcases hold b with ⟨-, hnone⟩ | ⟨old, d, -, hd, hsome⟩
      · rw [hb] at hnone
        cases hnone
      · obtain rfl := Option.some.inj (hb.symm.trans hsome)
        rw [Column.size_of_gather hd, hlen]

/-- Whatever the context, the tags and the settings: if unfolding succeeds, there is a column under
`key`, and the result is the context unfolded to its elements. -/
theorem unfold_exact {key tag : Nat} {settings : Settings}
    (hreal : ∀ column, ctx.get? key = some column → column.ItemsReal)
    (h : ctx.unfold key tag settings = .ok out) :
    ∃ column, ctx.get? key = some column ∧ UnfoldedTo ctx column tag out := by
  unfold unfold at h
  cases hkey : ctx.get? key with
  | none =>
    rw [hkey] at h
    cases h
  | some column =>
    rw [hkey] at h
    obtain ⟨u, hu, h⟩ := bind_eq_ok_iff.1 h
    obtain ⟨gathered, hgathered, hset⟩ := bind_eq_ok_iff.1 h
    have hunfolds := Unfolded.unfolds_of_ofColumn (hreal column hkey) hu
    exact ⟨column, rfl, unfoldedTo_of_set hunfolds (orFault_eq_ok_iff.1 hgathered)
      (orError_eq_ok_iff.1 hset)⟩

/-- Lists, an absent row and an empty list among them, beside a column of vertices. -/
def listSample : Context where
  slots := [some (.optionalValue ⟨⟨.lists .int64 [⟨.int64, [.int64 7, .null]⟩, ⟨.int64, []⟩,
      ⟨.int64, [.int64 8]⟩], none⟩, Bitmap.ofList [true, false, true]⟩),
    some (.vertex (.single ⟨3, [10, 11, 12], false⟩)), none,
    some (.vertex (.single ⟨3, [20, 21, 22], false⟩))]
  verifyLengths := true

theorem itemsReal_listSample (column : Column) (h : listSample.get? 0 = some column) :
    column.ItemsReal := by
  cases h
  intro itemType items hmem v hv
  have hrows : some (Value.list itemType items) ∈ [some (.list .int64 [.int64 7, .null]), none,
      some (.list .int64 [.int64 8])] := hmem
  simp only [List.mem_cons, Option.some_inj, Value.list.injEq, List.not_mem_nil, or_false,
    reduceCtorEq, false_or] at hrows
  rcases hrows with ⟨-, rfl⟩ | ⟨-, rfl⟩
  · rcases List.mem_cons.1 hv with rfl | hv
    · rfl
    · rw [List.mem_singleton.1 hv]
      rfl
  · rw [List.mem_singleton.1 hv]
    rfl

theorem unfold_exact_listSample :
    ∃ out made, listSample.unfold 0 1 Settings.defaults = .ok out ∧ out.get? 1 = some made ∧
      made.rows = [some (.int64 7), none, some (.int64 8)] ∧ out.rowCount = 3 := by
  obtain ⟨out, h⟩ : ∃ out, listSample.unfold 0 1 Settings.defaults = .ok out := ⟨_, rfl⟩
  obtain ⟨column, hcolumn, hunfolded⟩ := unfold_exact itemsReal_listSample h
  obtain ⟨made, hmade, -, -, hrows⟩ := hunfolded.elements
  have hcount := hunfolded.rowCount_eq
  cases hcolumn
  exact ⟨out, made, h, hmade, hrows, hcount⟩

end Context

end ColumnFlow
