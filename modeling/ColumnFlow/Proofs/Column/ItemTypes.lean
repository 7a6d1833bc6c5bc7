import ColumnFlow.Proofs.Column.Derived

/-!
# The types of list items

A list is made from items that are null or of its item type, and so is every list among its items.
A column of lists keeps one item type for all of them: null until a list tells another one. Both are
kept by every operation, so they hold of all columns that are derived from builders to which only
lists made this way were pushed (`Column.Derived.listsTyped`).
-/

namespace ColumnFlow

open Rows

/-! ## Lists that were made -/

theorem ListValue.ofItems_eq_ok_iff {itemType : ElemType} {items : List Value} {l : ListValue} :
    ofItems itemType items = .ok l
      ↔ (∀ v ∈ items, v.isNull = true ∨ v.elemType = itemType) ∧ l = ⟨itemType, items⟩ := by
  have hfind : (items.find? fun v => !v.isNull && v.elemType != itemType) = none
      ↔ ∀ v ∈ items, v.isNull = true ∨ v.elemType = itemType := by
    rw [List.find?_eq_none]
    refine forall₂_congr fun v _ => ?_
    cases v.isNull <;> simp
  rw [← hfind, ofItems]
  cases (items.find? fun v => !v.isNull && v.elemType != itemType) <;> simp [eq_comm]

/-- A value in which every list was accepted with its items. -/
inductive Value.WellTyped : Value → Prop where
  | plain {v : Value} (h : v.list? = none) : WellTyped v
  | list {itemType : ElemType} {items : List Value}
      (h : ListValue.ofItems itemType items = .ok ⟨itemType, items⟩)
      (hitems : ∀ v ∈ items, WellTyped v) : WellTyped (.list itemType items)

namespace Value.WellTyped

variable {itemType : ElemType} {items : List Value}

theorem of_mem (h : (Value.list itemType items).WellTyped) {v : Value} (hv : v ∈ items) :
    v.WellTyped := by
  cases h with
  | plain h => cases h
  | list _ hitems => exact hitems v hv

theorem elemType_of_mem (h : (Value.list itemType items).WellTyped) {v : Value} (hv : v ∈ items) :
    v.isNull = true ∨ v.elemType = itemType := by
  cases h with
  | plain h => cases h
  | list h => exact (ListValue.ofItems_eq_ok_iff.1 h).1 v hv

theorem empty (itemType : ElemType) : (ListValue.empty itemType).toValue.WellTyped :=
  .list rfl fun _ hv => absurd hv List.not_mem_nil

end Value.WellTyped

/-! ## Storage -/

theorem mergeItemTypes_eq_ok {known incoming merged : ElemType}
    (h : mergeItemTypes known incoming = .ok merged) :
    (known = .null ∨ known = merged) ∧ (incoming = .null ∨ incoming = merged) := by
  unfold mergeItemTypes at h
  split at h
  · next hknown =>
    cases h
    exact ⟨.inl hknown, .inr rfl⟩
  · split at h
    · next hincoming =>
      cases h
      exact ⟨.inr rfl, hincoming⟩
    · cases h

namespace Storage

variable {s t u : Storage}

/-- Every list was made from its items, and is of the item type that is kept unless its own is not
known. -/
def ListsTyped : Storage → Prop
  | scalars _ _ => True
  | lists itemType cells =>
    ∀ l ∈ cells, l.toValue.WellTyped ∧ (l.itemType = .null ∨ l.itemType = itemType)

/-- Lists keep to the item type when it becomes known. -/
theorem listsTyped_mono {known merged : ElemType} {cells : List ListValue}
    (h : (lists known cells).ListsTyped) (hknown : known = .null ∨ known = merged) :
    (lists merged cells).ListsTyped := by
  intro l hl
  obtain ⟨htyped, htype⟩ := h l hl
  refine ⟨htyped, htype.elim .inl fun heq => ?_⟩
  rwa [heq]

theorem listsTyped_append {itemType : ElemType} {xs ys : List ListValue}
    (hx : (lists itemType xs).ListsTyped) (hy : (lists itemType ys).ListsTyped) :
    (lists itemType (xs ++ ys)).ListsTyped :=
  fun l hl => (List.mem_append.1 hl).elim (hx l) (hy l)

theorem listsTyped_singleton {itemType : ElemType} {l : ListValue} (hl : l.toValue.WellTyped)
    (htype : l.itemType = .null ∨ l.itemType = itemType) : (lists itemType [l]).ListsTyped := by
  intro k hk
  rw [List.mem_singleton.1 hk]
  exact ⟨hl, htype⟩

theorem listsTyped_of_empty {type : ElemType} (h : Storage.empty type = .ok s) :
    s.ListsTyped := by
  unfold Storage.empty at h
  split at h
  · cases h
    trivial
  · split at h
    · cases h
      exact fun _ hl => absurd hl List.not_mem_nil
    · cases h

theorem listsTyped_of_push {v : Value} (hs : s.ListsTyped) (hv : v.WellTyped)
    (h : s.push v = .ok t) : t.ListsTyped := by
  cases pushed_of_push h with
  | scalar type cells cell => trivial
  | list cells l hmerge =>
    obtain ⟨hknown, hincoming⟩ := mergeItemTypes_eq_ok hmerge
    exact listsTyped_append (listsTyped_mono hs hknown) (listsTyped_singleton hv hincoming)

theorem listsTyped_pushPlaceholder (hs : s.ListsTyped) : s.pushPlaceholder.ListsTyped := by
  cases s with
  | scalars type cells => trivial
  | lists itemType cells =>
    exact listsTyped_append hs (listsTyped_singleton (.empty itemType) (.inr rfl))

theorem listsTyped_of_gather {offsets : List Nat} (hs : s.ListsTyped)
    (h : s.gather offsets = .ok t) : t.ListsTyped := by
  cases s with
  | scalars type cells =>
    obtain ⟨out, -, rfl⟩ := map_eq_ok_iff.1 h
    trivial
  | lists itemType cells =>
    obtain ⟨out, hout, rfl⟩ := map_eq_ok_iff.1 h
    exact fun l hl => hs l (mem_of_gather hout hl)

theorem listsTyped_of_gatherOptional {offsets : List (Option Nat)} (hs : s.ListsTyped)
    (h : s.gatherOptional offsets = .ok t) : t.ListsTyped := by
  cases s with
  | scalars type cells =>
    obtain ⟨out, -, rfl⟩ := map_eq_ok_iff.1 h
    trivial
  | lists itemType cells =>
    obtain ⟨out, hout, rfl⟩ := map_eq_ok_iff.1 h
    intro l hl
    rcases mem_of_gatherOptional hout hl with rfl | hl
    · exact ⟨.empty itemType, .inr rfl⟩
    · exact hs l hl

theorem listsTyped_of_append (hs : s.ListsTyped) (ht : t.ListsTyped) (h : s.append t = .ok u) :
    u.ListsTyped := by
  cases appended_of_append h with
  | scalars type xs ys => trivial
  | lists xs ys hmerge =>
    obtain ⟨hknown, hincoming⟩ := mergeItemTypes_eq_ok hmerge
    exact listsTyped_append (listsTyped_mono hs hknown) (listsTyped_mono ht hincoming)

end Storage

/-! ## Columns -/

/-- The lists in a column were made from their items, and keep to the column's item type. -/
def Column.ListsTyped : Column → Prop
  | value c => c.storage.ListsTyped
  | optionalValue c => c.values.storage.ListsTyped
  | vertex _ | edge _ | path _ => True

namespace Builder

variable {b b' : Builder} {v : Value}

/-- The lists in a builder were made from their items, and keep to the item type. -/
def ListsTyped : Builder → Prop
  | value b => b.storage.ListsTyped
  | single _ | segmented _ | mixed _ | edge _ | path _ => True

theorem listsTyped_toColumn (h : b.ListsTyped) (arena : Option Arena) :
    (b.toColumn arena).ListsTyped := by
  cases b with
  | value b => exact toColumn_value_cases h fun _ => h
  | single c | segmented c | mixed c | edge c | path c => trivial

theorem Fresh.listsTyped (h : Fresh b) : b.ListsTyped := by
  cases h with
  | value h =>
    obtain ⟨storage, hstorage, ⟨⟩⟩ := bind_eq_ok_iff.1 h
    exact Storage.listsTyped_of_empty hstorage
  | single label optional | segmented | mixed optional | edge optional | path optional => trivial

theorem listsTyped_of_pushValue (hb : b.ListsTyped) (hv : v.WellTyped)
    (h : b.pushValue v = .ok b') : b'.ListsTyped := by
  cases valuePushed_of_pushValue h with
  | value hd =>
    obtain ⟨storage, hstorage, ⟨⟩⟩ := bind_eq_ok_iff.1 hd
    exact Storage.listsTyped_of_push hb hv hstorage
  | single | segmented | mixed | edge | path => trivial

theorem listsTyped_of_pushNull (hb : b.ListsTyped) (h : b.pushNull = .ok b') : b'.ListsTyped := by
  cases b with
  | value c =>
    obtain ⟨d, hd, rfl⟩ := map_eq_ok_iff.1 h
    unfold ValueBuilder.pushNull at hd
    split at hd
    · cases hd
      exact Storage.listsTyped_pushPlaceholder hb
    · cases hd
  | segmented c => cases h
  | single c | mixed c | edge c | path c =>
    obtain ⟨d, -, rfl⟩ := map_eq_ok_iff.1 h
    trivial

theorem Reachable.listsTyped (h : Reachable Value.WellTyped b) : b.ListsTyped := by
  induction h with
  | fresh h => exact h.listsTyped
  | pushValue _ hv h ih => exact listsTyped_of_pushValue ih hv h
  | pushNull _ h ih => exact listsTyped_of_pushNull ih h
  | pushText _ hv h ih =>
    obtain ⟨storage, hstorage, ⟨⟩⟩ := bind_eq_ok_iff.1 h
    exact Storage.listsTyped_of_push ih hv hstorage
  | pushVid | startLabel | pushOpenVid => trivial

end Builder

namespace Column

variable {c d e : Column}

theorem listsTyped_of_gather {offsets : List Nat} (hc : c.ListsTyped)
    (h : c.gather offsets = .ok d) : d.ListsTyped := by
  cases c with
  | value c =>
    obtain ⟨d, hd, rfl⟩ := map_eq_ok_iff.1 h
    exact Storage.listsTyped_of_gather hc (ValueColumn.storage_of_gather hd)
  | optionalValue c =>
    obtain ⟨d, hd, rfl⟩ := map_eq_ok_iff.1 h
    exact Storage.listsTyped_of_gather hc (OptionalValueColumn.storage_of_gather hd)
  | vertex c | edge c | path c =>
    obtain ⟨d, -, rfl⟩ := map_eq_ok_iff.1 h
    trivial

theorem listsTyped_of_gatherOptional {offsets : List (Option Nat)} (hc : c.ListsTyped)
    (h : c.gatherOptional offsets = .ok d) : d.ListsTyped := by
  cases c with
  | value c =>
    obtain ⟨d, hd, rfl⟩ := map_eq_ok_iff.1 h
    exact Storage.listsTyped_of_gatherOptional hc (ValueColumn.storage_of_gatherOptional hd)
  | optionalValue c =>
    obtain ⟨d, hd, rfl⟩ := map_eq_ok_iff.1 h
    exact Storage.listsTyped_of_gatherOptional hc (OptionalValueColumn.storage_of_gatherOptional hd)
  | vertex c | edge c | path c =>
    obtain ⟨d, -, rfl⟩ := map_eq_ok_iff.1 h
    trivial

theorem listsTyped_of_append {id : ArenaId} (hc : c.ListsTyped) (hd : d.ListsTyped)
    (h : c.append id d = .ok e) : e.ListsTyped := by
  cases appendsTo_of_append h with
  | vertex | edge | path => trivial
  | value he => exact Storage.listsTyped_of_append hc hd (ValueColumn.storage_of_append he)
  | optionalValue he =>
    have hvalues := OptionalValueColumn.values_of_append he
    exact Storage.listsTyped_of_append hc hd (ValueColumn.storage_of_append hvalues)

theorem kept_listsTyped : Kept ListsTyped where
  gather := listsTyped_of_gather
  gatherOptional := listsTyped_of_gatherOptional
  append := listsTyped_of_append

theorem Derived.listsTyped (h : c.Derived Value.WellTyped) : c.ListsTyped :=
  h.of_kept kept_listsTyped fun _ arena hb => Builder.listsTyped_toColumn hb.listsTyped arena

end Column

end ColumnFlow
