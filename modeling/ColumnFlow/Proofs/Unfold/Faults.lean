import ColumnFlow.Proofs.Builder.Accepts
import ColumnFlow.Proofs.Column.ItemTypes
import ColumnFlow.Proofs.Unfold.Shape

/-!
# When unfolding faults

The elements of a column are pushed to a new builder of their type. The lists in the column were
made from items of that type, so the builder takes them all, with one exception: among lists of
lists, those in the items may be of different item types, which one column can't hold
(`Unfolded.faults_ofColumn_iff`).
-/

namespace ColumnFlow

open Rows

/-! ## Faults -/

/-- The operation faults. -/
def Faults {α : Type} (x : Except Failure α) : Prop := ∃ fault, x = .error (.fault fault)

section

variable {α β : Type}

theorem not_faults_ok (a : α) : ¬ Faults (.ok a) := by
  intro h
  obtain ⟨fault, h⟩ := h
  cases h

theorem not_faults_error (e : Error) : ¬ Faults (.error (.error e) : Except Failure α) := by
  intro h
  obtain ⟨fault, h⟩ := h
  cases h

theorem not_faults_orError (x : Except Error α) : ¬ Faults (orError x) := by
  cases x with
  | ok a => exact not_faults_ok a
  | error e => exact not_faults_error e

theorem faults_orFault_iff {x : Except Fault α} : Faults (orFault x) ↔ ¬ ∃ a, x = .ok a := by
  cases x with
  | ok a => exact iff_of_false (not_faults_ok a) (not_not_intro ⟨a, rfl⟩)
  | error fault => exact iff_of_true ⟨fault, rfl⟩ (by simp)

/-- A sequence faults in its first step or after it. -/
theorem faults_bind_iff {x : Except Failure α} {f : α → Except Failure β} :
    Faults (x >>= f) ↔ Faults x ∨ ∃ a, x = .ok a ∧ Faults (f a) := by
  cases x with
  | ok a => simp [bind, Except.bind, not_faults_ok]
  | error e => simp [bind, Except.bind, Faults]

end

theorem Value.isNull_of_elemType {v : Value} (h : v.elemType = .null) : v.isNull = true := by
  cases v <;> first | rfl | cases h

/-! ## Elements -/

namespace Column

variable {c : Column}

/-- An element stands in a present row. -/
theorem exists_row_of_mem_elements {e : Nat × Value} (h : e ∈ c.elements) :
    ∃ v, e.1 < c.size ∧ c.get e.1 = .ok v ∧ e.2 ∈ v.elements := by
  obtain ⟨⟨row, i⟩, hrow, he⟩ := List.mem_flatMap.1 h
  obtain ⟨x, hx, rfl⟩ := List.mem_map.1 he
  have hplace := List.mem_zipIdx_iff_getElem?.1 hrow
  have hi : i < c.size := by
    have hlt := (List.getElem?_eq_some_iff.1 hplace).1
    rwa [rows, List.length_map, List.length_range] at hlt
  rw [rows, List.getElem?_map, List.getElem?_range hi] at hplace
  cases row with
  | none => exact absurd hx List.not_mem_nil
  | some v =>
    obtain ⟨-, hget⟩ := rowAt_eq_some_iff.1 (Option.some.inj hplace)
    exact ⟨v, hi, hget, hx⟩

/-- Only paths and lists have elements. -/
theorem path_or_lists_of_mem_elements {e : Nat × Value} (h : e ∈ c.elements) :
    (∃ paths, c = .path paths) ∨ ∃ itemType cells, c.HasLists itemType cells := by
  obtain ⟨v, -, hget, he⟩ := exists_row_of_mem_elements h
  cases c with
  | vertex c | edge c =>
    obtain ⟨x, -, rfl⟩ := map_eq_ok_iff.1 hget
    exact absurd he List.not_mem_nil
  | path c => exact .inl ⟨c, rfl⟩
  | value c =>
    obtain ⟨⟨t, cells⟩ | ⟨itemType, cells⟩, arena⟩ := c
    · obtain ⟨x, -, rfl⟩ := map_eq_ok_iff.1 hget
      cases t <;> exact absurd he List.not_mem_nil
    · exact .inr ⟨itemType, cells, .value arena⟩
  | optionalValue c =>
    obtain ⟨⟨⟨t, cells⟩ | ⟨itemType, cells⟩, arena⟩, validity⟩ := c
    · obtain ⟨x, -, rfl⟩ := map_eq_ok_iff.1 hget
      cases t <;> exact absurd he List.not_mem_nil
    · exact .inr ⟨itemType, cells, .optionalValue arena validity⟩

/-- Only lists have lists as elements. -/
theorem hasLists_of_mem_elements {e : Nat × Value} (h : e ∈ c.elements)
    (htype : e.2.itemType ≠ .null) : ∃ itemType cells, c.HasLists itemType cells := by
  rcases path_or_lists_of_mem_elements h with ⟨paths, rfl⟩ | hlists
  · obtain ⟨v, -, hget, he⟩ := exists_row_of_mem_elements h
    obtain ⟨p, -, rfl⟩ := map_eq_ok_iff.1 hget
    obtain ⟨x, -, hx⟩ := List.mem_map.1 he
    rw [← hx] at htype
    exact absurd rfl htype
  · exact hlists

/-- Two of the elements are lists of different known item types. -/
def NestedClash (c : Column) : Prop :=
  ∃ x ∈ c.elements, ∃ y ∈ c.elements, Storage.ItemTypesClash x.2.itemType y.2.itemType

theorem nestedClash_iff :
    c.NestedClash ↔ ¬ ItemTypesAgree (c.elements.map fun e => e.2.itemType) := by
  simp [NestedClash, ItemTypesAgree]

theorem HasLists.listsTyped {itemType : ElemType} {cells : List ListValue}
    (h : c.HasLists itemType cells) (ht : c.ListsTyped) :
    (Storage.lists itemType cells).ListsTyped := by
  cases h <;> exact ht

end Column

namespace Unfolded

variable {limit : Option UInt64} {c : Column} {u : Unfolded}

/-! ## Lists -/

theorem exists_presentLists (ha : c.Aligned) {cells : List ListValue}
    (hsize : c.size = cells.length) : ∃ lists, presentLists c cells = .ok lists := by
  have hbits : (List.range' 0 cells.length).map c.hasValue
      = (c.contents.map Option.isSome).map .ok := by
    refine map_present_eq (by rw [List.length_map, Column.length_contents ha, hsize]) ?_
    intro i b hb
    rw [List.getElem?_map, Option.map_eq_some_iff] at hb
    obtain ⟨row, hrow, rfl⟩ := hb
    obtain ⟨v, b, -, hb, rfl⟩ := Column.exists_row ha hrow
    rw [hb]
    cases b <;> rfl
  exact ⟨_, bind_eq_ok_iff.2 ⟨_, mapM_zipIdx_eq_ok_iff.2 ⟨_, hbits, rfl⟩, rfl⟩⟩

theorem mem_of_presentLists {cells : List ListValue} {lists : List (Nat × ListValue)}
    (h : presentLists c cells = .ok lists) {e : Nat × ListValue} (he : e ∈ lists) : e.2 ∈ cells := by
  obtain ⟨rows, hrows, ⟨⟩⟩ := bind_eq_ok_iff.1 h
  obtain ⟨bits, -, rfl⟩ := mapM_zipIdx_eq_ok_iff.1 hrows
  obtain ⟨row, hrow, hsome⟩ := List.mem_filterMap.1 he
  obtain rfl : row = some e := hsome
  obtain ⟨i, hi⟩ := List.mem_iff_getElem?.1 hrow
  obtain ⟨cell, b, hcell, -, hkeep⟩ := getElem?_mask_eq_some hi
  obtain ⟨entry, hentry, rfl⟩ := List.mem_map.1 (List.mem_of_getElem? hcell)
  cases b with
  | false => cases hkeep
  | true =>
    cases hkeep
    exact List.mem_of_getElem? (List.mem_zipIdx_iff_getElem?.1 hentry)

/-- The items of lists in a column of typed lists were made with them, and are null or of the
column's item type. -/
theorem typed_of_mem_listItems {itemType : ElemType} {cells : List ListValue}
    (ht : (Storage.lists itemType cells).ListsTyped) {lists : List (Nat × ListValue)}
    (hlists : ∀ e ∈ lists, e.2 ∈ cells) {e : Nat × Value} (he : e ∈ listItems lists) :
    e.2.WellTyped ∧ (e.2.isNull = true ∨ e.2.elemType = itemType) := by
  obtain ⟨⟨row, l⟩, hl, hitem⟩ := List.mem_flatMap.1 he
  obtain ⟨v, hv, rfl⟩ := List.mem_map.1 hitem
  obtain ⟨htyped, htype⟩ := ht l (hlists _ hl)
  refine ⟨htyped.of_mem hv, ?_⟩
  rcases htyped.elemType_of_mem hv with hnull | helem
  · exact .inl hnull
  · rcases htype with hunknown | heq
    · exact .inl (Value.isNull_of_elemType (helem.trans hunknown))
    · exact .inr (helem.trans heq)

/-- There are no more rows than the limit, if there is one. -/
def WithinLimit (limit : Option UInt64) (rows : Nat) : Prop :=
  ∀ l, limit = some l → rows ≤ l.toNat

theorem checkLimit_eq_ok_iff {rows : Nat} :
    checkLimit limit rows = .ok () ↔ WithinLimit limit rows := by
  unfold checkLimit WithinLimit
  cases limit with
  | none => simp
  | some l =>
    by_cases h : l.toNat < rows
    · simp [h]
    · simp [h, Nat.le_of_not_lt h]

theorem faults_push_iff {itemType : ElemType} (hknown : itemType ≠ .null) {items : List Value}
    (hitems : ∀ v ∈ items, v.isNull = true ∨ v.elemType = itemType) (arena : Option Arena)
    (offsets : List Nat) :
    Faults (do
        let builder ← orError (Builder.ofType itemType (items.any Value.isNull))
        let builder ← orFault (builder.pushAll items)
        return (⟨builder.toColumn arena, offsets⟩ : Unfolded))
      ↔ ¬ ItemTypesAgree (items.map Value.itemType) := by
  obtain ⟨b, hb, htype, hoptional, hlabel, hitem⟩ :=
    Builder.exists_ofType hknown (items.any Value.isNull)
  have hfits : ∀ v ∈ items, ¬ b.Refuses [] v := by
    intro v hv hrefused
    cases hrefused with
    | null h =>
      rw [hoptional, List.any_eq_false] at h
      exact h .null hv rfl
    | elemType hnull h =>
      have helem := (hitems v hv).resolve_left (by simp [hnull])
      exact h (helem.trans htype.symm)
    | label h => exact hlabel _ h
    | itemType htypes => cases htypes
  have hpush := Builder.exists_pushAll_iff_agree hitem hfits
  rw [hb, ← hpush, ← faults_orFault_iff]
  show Faults (orFault (b.pushAll items) >>= fun builder => _) ↔ _
  rw [faults_bind_iff]
  exact or_iff_left fun h => by
    obtain ⟨b', -, h⟩ := h
    exact not_faults_ok _ h

/-- Lists that are present fault by their items, if the limit lets these through. -/
theorem faults_ofLists_iff (ha : c.Aligned) {itemType : ElemType} {lists : List (Nat × ListValue)}
    (hitems : ∀ e ∈ listItems lists, e.2.isNull = true ∨ e.2.elemType = itemType) :
    Faults (ofLists limit c itemType lists)
      ↔ WithinLimit limit (listItems lists).length ∧
        ¬ ItemTypesAgree ((listItems lists).map fun e => e.2.itemType) := by
  have hvalues : ∀ v ∈ (listItems lists).map (·.2), v.isNull = true ∨ v.elemType = itemType := by
    intro v hv
    obtain ⟨e, he, rfl⟩ := List.mem_map.1 hv
    exact hitems e he
  rw [← checkLimit_eq_ok_iff, ← itemCount_eq]
  unfold ofLists
  rw [faults_bind_iff, or_iff_right (not_faults_orError _), Unique.exists_iff, orError_eq_ok_iff]
  refine and_congr_right fun _ => ?_
  by_cases hnull : itemType = .null
  · -- all items are null, and what is made of them is empty or refused
    have hagree : ItemTypesAgree ((listItems lists).map fun e => e.2.itemType) := by
      intro s hs t ht hclash
      obtain ⟨e, he, rfl⟩ := List.mem_map.1 hs
      have hitem : e.2.isNull = true :=
        (hitems e he).elim id fun helem => Value.isNull_of_elemType (helem.trans hnull)
      rw [Value.isNull_iff.1 hitem] at hclash
      exact hclash.1 rfl
    rw [if_pos hnull]
    refine iff_of_false ?_ (not_not_intro hagree)
    split
    · have hnone : InRange c.size [] := fun i hi => by cases hi
      obtain ⟨d, hd, -⟩ := Column.exists_gathered ha hnone
      rw [hd]
      exact not_faults_ok _
    · exact not_faults_error _
  · rw [if_neg hnull]
    have hpush := faults_push_iff hnull hvalues c.arena ((listItems lists).map (·.1))
    rw [List.any_map, List.map_map] at hpush
    exact hpush

/-- Unfolding a column faults exactly if two of its elements are lists of different item types, and
the limit lets the elements through. -/
theorem faults_ofColumn_iff (ha : c.Aligned) (ht : c.ListsTyped) :
    Faults (ofColumn limit c) ↔ WithinLimit limit c.elements.length ∧ c.NestedClash := by
  -- without lists there is nothing to clash
  have hnone : (∀ itemType cells, ¬ c.HasLists itemType cells) → ¬ c.NestedClash := by
    intro hlists hclash
    obtain ⟨x, hx, y, hy, hknown, -⟩ := hclash
    obtain ⟨itemType, cells, h⟩ := Column.hasLists_of_mem_elements hx hknown
    exact hlists itemType cells h
  rcases ofColumn_shape limit c with
    ⟨paths, rfl⟩ | ⟨itemType, cells, hlists⟩ | ⟨-, hlists, hrefused⟩
  · refine iff_of_false ?_ fun h => hnone (fun _ _ h => by cases h) h.2
    show ¬ Faults (ofPaths limit paths)
    rw [ofPaths, RecordColumn.rows_eq ha]
    intro h
    rcases faults_bind_iff.1 h with h | ⟨rows, -, h⟩
    · exact not_faults_ok _ h
    · rcases faults_bind_iff.1 h with h | ⟨visited, -, h⟩
      · exact not_faults_orError _ h
      · exact not_faults_ok _ h
  · obtain ⟨lists, hpresent⟩ := exists_presentLists ha hlists.size_eq
    obtain ⟨hitems, -⟩ := listItems_of_presentLists hlists.size_eq (fun _ _ => hlists.get_eq) hpresent
    have htyped : ∀ e ∈ listItems lists, e.2.isNull = true ∨ e.2.elemType = itemType := fun e he =>
      (typed_of_mem_listItems (hlists.listsTyped ht) (fun _ => mem_of_presentLists hpresent) he).2
    rw [ofColumn_of_hasLists hlists, hpresent]
    show Faults (ofLists limit c itemType lists) ↔ _
    rw [faults_ofLists_iff ha htyped, hitems, Column.nestedClash_iff]
  · rw [hrefused]
    exact iff_of_false (not_faults_error _) fun h => hnone hlists h.2

/-! ## What comes out -/

theorem aligned_of_ofColumn (ha : c.Aligned) (h : ofColumn limit c = .ok u) : u.column.Aligned := by
  rcases ofColumn_shape limit c with ⟨paths, rfl⟩ | ⟨itemType, cells, hlists⟩ | ⟨-, -, hrefused⟩
  · obtain ⟨rows, -, h⟩ := bind_eq_ok_iff.1 h
    obtain ⟨visited, -, ⟨⟩⟩ := bind_eq_ok_iff.1 h
    trivial
  · rw [ofColumn_of_hasLists hlists] at h
    obtain ⟨lists, -, h⟩ := bind_eq_ok_iff.1 h
    rcases ofLists_eq_ok h with ⟨-, hcolumn, -⟩ | ⟨b, b', hfresh, hpush, hcolumn, -⟩
    · exact (Column.gathered_of_gather ha hcolumn).aligned
    · rw [hcolumn]
      exact Builder.aligned_toColumn (Builder.size_of_pushAll hfresh.aligned hpush).1 c.arena
  · rw [hrefused] at h
    cases h

/-- The items of well-typed lists are well typed, so that the lists among them are. -/
theorem listsTyped_of_ofColumn (ht : c.ListsTyped) (h : ofColumn limit c = .ok u) :
    u.column.ListsTyped := by
  rcases ofColumn_shape limit c with ⟨paths, rfl⟩ | ⟨itemType, cells, hlists⟩ | ⟨-, -, hrefused⟩
  · obtain ⟨rows, -, h⟩ := bind_eq_ok_iff.1 h
    obtain ⟨visited, -, ⟨⟩⟩ := bind_eq_ok_iff.1 h
    trivial
  · rw [ofColumn_of_hasLists hlists] at h
    obtain ⟨lists, hpresent, h⟩ := bind_eq_ok_iff.1 h
    have hmem := fun e => mem_of_presentLists (orFault_eq_ok_iff.1 hpresent) (e := e)
    rcases ofLists_eq_ok h with ⟨-, hcolumn, -⟩ | ⟨b, b', hfresh, hpush, hcolumn, -⟩
    · exact Column.listsTyped_of_gather ht hcolumn
    · have htyped : ∀ v ∈ (listItems lists).map (·.2), v.WellTyped := by
        intro v hv
        obtain ⟨e, he, rfl⟩ := List.mem_map.1 hv
        exact (typed_of_mem_listItems (hlists.listsTyped ht) hmem he).1
      have hbuilt := (Builder.Reachable.fresh hfresh).pushAll htyped hpush
      rw [hcolumn]
      exact Builder.listsTyped_toColumn hbuilt.listsTyped c.arena
  · rw [hrefused] at h
    cases h

end Unfolded

end ColumnFlow
