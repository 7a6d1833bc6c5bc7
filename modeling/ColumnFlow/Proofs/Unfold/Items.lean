import ColumnFlow.Proofs.Unfold.Refusals

/-!
# The items that unfolding takes

A column of lists knows its item type from the lists that came first, and placeholders may be older
than that. Unfolding trusts it all the same: the builder for the items is chosen by it. It may,
because the types stay consistent over all operations (`Column.Obtained.items_consistent`).
-/

namespace ColumnFlow

open Rows

/-- The lists in a column agree with its item type, and their items with theirs. -/
structure Column.ItemsConsistent (c : Column) (cells : List ListValue) : Prop where
  listType : ∀ l ∈ cells, l.itemType = .null ∨ l.itemType = c.itemType
  unknown : c.itemType = .null → ∀ l ∈ cells, l.itemType = .null
  itemType : ∀ l ∈ cells, ∀ v ∈ l.items, v.isNull = true ∨ v.elemType = l.itemType

/-- A value that a builder takes for its type: of this type, or null if rows may be absent. -/
def Builder.Suits (b : Builder) (v : Value) : Prop :=
  (v.isNull = true ∧ b.profile.optional = true) ∨ v.elemType = b.profile.elemType

namespace Column

variable {c : Column} {itemType : ElemType} {cells : List ListValue}

theorem ItemsConsistent.of_listsTyped (h : c.HasLists itemType cells) (ht : c.ListsTyped) :
    c.ItemsConsistent cells := by
  have hlists := h.listsTyped ht
  rw [← h.itemType_eq] at hlists
  refine ⟨fun l hl => (hlists l hl).2, fun hnull l hl => ?_, fun l hl v hv => ?_⟩
  · exact (hlists l hl).2.elim id fun heq => heq.trans hnull
  · exact (hlists l hl).1.elemType_of_mem hv

/-- The builder that is chosen by the item type suits the items: if one of them is null, it is a
builder for absent rows too. -/
theorem exists_suitable {items : List (Nat × Value)} (hknown : itemType ≠ .null)
    (hitems : ∀ e ∈ items, e.2.isNull = true ∨ e.2.elemType = itemType) :
    ∃ b, Builder.ofType itemType (items.any fun e => e.2.isNull) = .ok b ∧
      ∀ e ∈ items, b.Suits e.2 := by
  obtain ⟨b, hb, htype, hoptional, -⟩ :=
    Builder.exists_ofType hknown (items.any fun e => e.2.isNull)
  refine ⟨b, hb, fun e he => ?_⟩
  rcases hitems e he with hnull | helem
  · rw [List.any_eq_true.2 ⟨e, he, hnull⟩] at hoptional
    exact .inl ⟨hnull, hoptional⟩
  · exact .inr (helem.trans htype.symm)

/-- Item types stay consistent, however a column of lists was obtained. Every list in it, of an
absent row too, has the column's item type or none that is known, and items that are null or of the
list's item type. The column knows no item type only if none of its lists does. So of the items that
unfolding takes, which are those of the present lists, all are null if no item type is known, and
all suit the builder that is chosen by the item type if it is. -/
theorem Obtained.items_consistent (h : c.Obtained Value.WellTyped)
    (hlists : c.HasLists itemType cells) :
    c.ItemsConsistent cells ∧
      ∃ lists, Unfolded.presentLists c cells = .ok lists ∧
        (c.itemType = .null → ∀ e ∈ Unfolded.listItems lists, e.2.isNull = true) ∧
        (c.itemType ≠ .null → ∃ b,
          Builder.ofType c.itemType ((Unfolded.listItems lists).any fun e => e.2.isNull) = .ok b ∧
            ∀ e ∈ Unfolded.listItems lists, b.Suits e.2) := by
  obtain ⟨lists, hpresent⟩ := Unfolded.exists_presentLists h.aligned hlists.size_eq
  have hitems : ∀ e ∈ Unfolded.listItems lists,
      e.2.isNull = true ∨ e.2.elemType = c.itemType := by
    intro e he
    rw [hlists.itemType_eq]
    exact (Unfolded.typed_of_mem_listItems (hlists.listsTyped h.listsTyped)
      (fun _ => Unfolded.mem_of_presentLists hpresent) he).2
  refine ⟨.of_listsTyped hlists h.listsTyped, lists, hpresent, fun hnull e he => ?_,
    fun hknown => exists_suitable hknown hitems⟩
  exact (hitems e he).elim id fun helem => Value.isNull_of_elemType (helem.trans hnull)

/-- An absent row from before the item type was known, and a list of a number and a null. -/
def lateTypeColumn : Column :=
  .optionalValue ⟨⟨.lists .int32 [⟨.null, []⟩, ⟨.int32, [.int32 7, .null]⟩], none⟩,
    Bitmap.ofList [false, true]⟩

theorem obtained_lateTypeColumn : lateTypeColumn.Obtained Value.WellTyped := by
  have hnew : Builder.ofType .list true
      = .ok (.value (ValueBuilder.ofStorage (.lists .null []) true)) := rfl
  have hb : (Builder.value (ValueBuilder.ofStorage (.lists .null []) true)).Reachable
      Value.WellTyped := .fresh (Builder.fresh_of_ofType hnew)
  have hlist : (Value.list .int32 [.int32 7, .null]).WellTyped :=
    .list rfl fun v hv => by
      rcases List.mem_pair.1 hv with rfl | rfl <;> exact .plain rfl
  have hpush := (hb.pushNull rfl).pushValue hlist rfl
  exact .finish hpush 0 none

/-- The placeholder keeps its own item type, and both items suit the builder for numbers. -/
theorem items_consistent_lateTypeColumn :
    (lateTypeColumn.ItemsConsistent [⟨.null, []⟩, ⟨.int32, [.int32 7, .null]⟩]) ∧
      ∃ b, Builder.ofType .int32 true = .ok b ∧ b.Suits (.int32 7) ∧ b.Suits .null := by
  obtain ⟨hconsistent, lists, hlists, -, hsuits⟩ :=
    obtained_lateTypeColumn.items_consistent (.optionalValue none _)
  cases hlists
  obtain ⟨b, hb, hitems⟩ := hsuits (by decide)
  exact ⟨hconsistent, b, hb, hitems (1, .int32 7) (by decide), hitems (1, .null) (by decide)⟩

end Column

end ColumnFlow
