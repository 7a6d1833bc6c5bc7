import ColumnFlow.Proofs.Unfold

/-!
# How unfolding proceeds

Only columns of paths and columns of lists can be unfolded. Whatever their elements are, the column
that comes out has a row for each offset, and the offsets are the rows of the elements. A context is
unfolded by gathering it by these offsets and putting the column into it.
-/

namespace ColumnFlow

open Rows

/-- A column with these lists as its cells, optional or not. -/
inductive Column.HasLists (itemType : ElemType) (cells : List ListValue) : Column → Prop where
  | value (arena : Option Arena) : HasLists itemType cells (.value ⟨.lists itemType cells, arena⟩)
  | optionalValue (arena : Option Arena) (validity : Bitmap) :
    HasLists itemType cells (.optionalValue ⟨⟨.lists itemType cells, arena⟩, validity⟩)

namespace Column.HasLists

variable {c : Column} {itemType : ElemType} {cells : List ListValue}

theorem size_eq (h : c.HasLists itemType cells) : c.size = cells.length := by
  cases h <;> rfl

theorem get_eq (h : c.HasLists itemType cells) {i : Nat} {l : ListValue} (hl : cells[i]? = some l) :
    c.get i = .ok l.toValue := by
  have hget : (Storage.lists itemType cells).get i = .ok l.toValue :=
    map_eq_ok_iff.2 ⟨l, fetch_eq_ok_iff.2 hl, rfl⟩
  cases h <;> exact hget

end Column.HasLists

namespace Unfolded

variable {limit : Option UInt64} {c : Column} {u : Unfolded}

theorem ofColumn_of_hasLists {itemType : ElemType} {cells : List ListValue}
    (h : c.HasLists itemType cells) :
    ofColumn limit c = (do ofLists limit c itemType (← orFault (presentLists c cells))) := by
  cases h <;> rfl

/-- Columns without paths and lists are refused, with an error. -/
theorem ofColumn_shape (limit : Option UInt64) (c : Column) :
    (∃ paths, c = .path paths) ∨ (∃ itemType cells, c.HasLists itemType cells) ∨
      (c.kind ≠ .path ∧ (∀ itemType cells, ¬ c.HasLists itemType cells) ∧
        ofColumn limit c = .error (.error (.of (.notImplemented s!"unfold for {c.info}")))) := by
  cases c with
  | path paths => exact .inl ⟨paths, rfl⟩
  | value c =>
    obtain ⟨⟨t, cells⟩ | ⟨itemType, cells⟩, arena⟩ := c
    · exact .inr (.inr ⟨by simp [Column.kind], fun _ _ h => (by cases h), rfl⟩)
    · exact .inr (.inl ⟨itemType, cells, .value arena⟩)
  | optionalValue c =>
    obtain ⟨⟨⟨t, cells⟩ | ⟨itemType, cells⟩, arena⟩, validity⟩ := c
    · exact .inr (.inr ⟨by simp [Column.kind], fun _ _ h => (by cases h), rfl⟩)
    · exact .inr (.inl ⟨itemType, cells, .optionalValue arena validity⟩)
  | vertex c | edge c => exact .inr (.inr ⟨by simp [Column.kind], fun _ _ h => (by cases h), rfl⟩)

/-! ## The size of what comes out -/

theorem size_of_ofPaths {paths : PathColumn} (h : ofPaths limit paths = .ok u) :
    u.column.size = u.offsets.length := by
  obtain ⟨-, visited, -, -, rfl⟩ := exists_of_ofPaths h
  show (visited.map (·.2)).length = (visited.map (·.1)).length
  rw [List.length_map, List.length_map]

theorem size_of_ofLists {itemType : ElemType} {lists : List (Nat × ListValue)}
    (h : ofLists limit c itemType lists = .ok u) : u.column.size = u.offsets.length := by
  rcases ofLists_eq_ok h with ⟨-, hcolumn, hoffsets⟩ | ⟨b, b', hfresh, hpush, hcolumn, hoffsets⟩
  · rw [Column.size_of_gather hcolumn, hoffsets]
  · obtain ⟨ha, hsize⟩ := Builder.size_of_pushAll hfresh.aligned hpush
    rw [hcolumn, Builder.size_toColumn ha, hsize, ← Builder.length_contents hfresh.aligned,
      hfresh.contents_eq, hoffsets, List.length_map, List.length_map]
    exact Nat.zero_add _

/-- There is a row for each offset, also for elements that read as absent. -/
theorem size_of_ofColumn (h : ofColumn limit c = .ok u) : u.column.size = u.offsets.length := by
  rcases ofColumn_shape limit c with ⟨paths, rfl⟩ | ⟨itemType, cells, hlists⟩ | ⟨-, -, hrefused⟩
  · exact size_of_ofPaths h
  · rw [ofColumn_of_hasLists hlists] at h
    obtain ⟨lists, -, h⟩ := bind_eq_ok_iff.1 h
    exact size_of_ofLists h
  · rw [hrefused] at h
    cases h

/-- The rows are those that the elements stand in. -/
theorem offsets_of_ofColumn (h : ofColumn limit c = .ok u) :
    u.offsets = c.elements.map (·.1) := by
  rcases ofColumn_shape limit c with ⟨paths, rfl⟩ | ⟨itemType, cells, hlists⟩ | ⟨-, -, hrefused⟩
  · exact (unfolds_of_ofPaths h).offsets_eq
  · rw [ofColumn_of_hasLists hlists] at h
    obtain ⟨lists, hpresent, h⟩ := bind_eq_ok_iff.1 h
    obtain ⟨hitems, -⟩ := listItems_of_presentLists hlists.size_eq (fun _ _ => hlists.get_eq)
      (orFault_eq_ok_iff.1 hpresent)
    rw [← hitems]
    rcases ofLists_eq_ok h with ⟨hnil, -, hoffsets⟩ | ⟨-, -, -, -, -, hoffsets⟩
    · rw [hoffsets, hnil]
      rfl
    · exact hoffsets
  · rw [hrefused] at h
    cases h

end Unfolded

/-- Unfolding a context is one gather and one column put. -/
theorem Context.exists_of_unfold {ctx out : Context} {key tag : Nat} {settings : Settings}
    (h : ctx.unfold key tag settings = .ok out) :
    ∃ column u gathered, ctx.get? key = some column ∧
      Unfolded.ofColumn settings.unfoldLimit column = .ok u ∧
      ctx.gather u.offsets = .ok gathered ∧ gathered.set tag u.column = .ok out := by
  unfold unfold at h
  cases hkey : ctx.get? key with
  | none =>
    rw [hkey] at h
    cases h
  | some column =>
    rw [hkey] at h
    obtain ⟨u, hu, h⟩ := bind_eq_ok_iff.1 h
    obtain ⟨gathered, hgathered, hset⟩ := bind_eq_ok_iff.1 h
    exact ⟨column, u, gathered, rfl, hu, orFault_eq_ok_iff.1 hgathered, orError_eq_ok_iff.1 hset⟩

end ColumnFlow
