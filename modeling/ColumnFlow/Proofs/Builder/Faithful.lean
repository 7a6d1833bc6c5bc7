import ColumnFlow.Proofs.Builder.Accepts
import ColumnFlow.Proofs.Builder.Reachable

/-!
# Builders are faithful

What was pushed to a new builder is what its column holds, and a push that is refused is refused for
one of the stated reasons (`Builder.pushAll_exact`). Rows may be absent in three ways: by a bitmap
beside the cells, by the reserved vertex, or not at all. None of them shows in the rows.
-/

namespace ColumnFlow.Builder

open Rows

variable {b b' : Builder} {values : List Value}

/-- The column is of the builder's profile and has a row for each value, in order: absent for null,
and otherwise present with this value. Its item type is the one that the lists have in common. -/
structure Holds (b : Builder) (values : List Value) (c : Column) : Prop where
  profile_eq : c.profile = b.profile
  size_eq : c.size = values.length
  hasValue_eq : ∀ (i : Nat) (v : Value), values[i]? = some v → c.hasValue i = .ok (!v.isNull)
  get_eq : ∀ (i : Nat) (v : Value), values[i]? = some v → v.isNull = false → c.get i = .ok v
  itemType : CommonItemType (values.map Value.itemType) c.itemType

theorem Fresh.itemType_eq (h : Fresh b) : b.itemType = .null := by
  cases h with
  | value h => exact (types_of_empty h).2
  | single label optional | segmented | mixed optional | edge optional | path optional => rfl

/-- A row that is kept for a value reads as the value says. -/
theorem reads_of_toRow {c : Column} {i : Nat} {v : Value} (ha : c.Aligned)
    (hrow : c.contents[i]? = some v.toRow) :
    c.hasValue i = .ok (!v.isNull) ∧ (v.isNull = false → c.get i = .ok v) := by
  obtain ⟨w, bit, hget, hbit, hkeep⟩ := Column.exists_row ha hrow
  unfold Value.toRow at hkeep
  cases bit <;> cases hnull : v.isNull <;> simp [hnull, keep] at hkeep
  · simp [hbit]
  · simp [hbit, hget, hkeep]

/-- Whatever arena it is finished with, the column holds the values that were pushed. -/
theorem holds_finish (hb : Fresh b) (hreal : ∀ v ∈ values, v.isReserved = false)
    (h : b.pushAll values = .ok b') (id : ArenaId) (arena : Option Arena) :
    b.Holds values (b'.finish id arena) := by
  obtain ⟨ha, hcontents⟩ := contents_of_pushAll hb.aligned hreal h
  obtain ⟨hprofile, hcommon⟩ := types_of_pushAll hb.itemType_eq h
  obtain ⟨arena', harena⟩ := b'.finish_eq_toColumn id arena
  have halign := aligned_toColumn ha arena'
  have hrows : (b'.toColumn arena').contents = values.map Value.toRow := by
    rw [contents_toColumn, hcontents, hb.contents_eq, List.nil_append]
  have hreads : ∀ (i : Nat) (v : Value), values[i]? = some v → _ := fun i v hv =>
    reads_of_toRow (i := i) (v := v) halign (by rw [hrows, List.getElem?_map, hv]; rfl)
  refine ⟨by rw [profile_finish, hprofile], ?_, ?_, ?_, by rwa [itemType_finish]⟩
  all_goals rw [harena]
  · rw [← Column.length_contents halign, hrows, List.length_map]
  · exact fun i v hv => (hreads i v hv).1
  · exact fun i v hv => (hreads i v hv).2

/-- A refused push ends the run, with its fault. -/
theorem pushAll_eq_error_of_push {before after : List Value} {v : Value} {mid : Builder}
    {fault : Fault} (hmid : b.pushAll before = .ok mid) (hpush : mid.push v = .error fault) :
    b.pushAll (before ++ v :: after) = .error fault := by
  rw [pushAll] at hmid ⊢
  simp [List.foldlM_append, List.foldlM_cons, hmid, hpush, bind, Except.bind]

/-- Pushes to a new builder, of any kind and of any values but the reserved vertex. The first value
that the builder refuses after those before it faults when it is pushed, and no earlier one does. If
no value is refused, a column is finished that holds the values, with whatever arena. -/
theorem pushAll_exact (hb : Fresh b) (hreal : ∀ v ∈ values, v.isReserved = false) :
    (∀ before v after, values = before ++ v :: after → b.Accepts before →
        b.Refuses (before.map Value.itemType) v →
          ∃ mid fault, b.pushAll before = .ok mid ∧ mid.push v = .error fault ∧
            b.pushAll values = .error fault) ∧
      (b.Accepts values →
        ∃ b', b.pushAll values = .ok b' ∧ ∀ id arena, b.Holds values (b'.finish id arena)) := by
  constructor
  · rintro before v after rfl haccepts hrefuses
    obtain ⟨mid, hmid⟩ := (exists_pushAll_iff hb.itemType_eq).2 haccepts
    obtain ⟨fault, hfault⟩ : ∃ fault, mid.push v = .error fault := by
      rw [exists_error_iff, exists_push_iff_of_pushAll hb.itemType_eq hmid]
      exact not_not_intro hrefuses
    exact ⟨mid, fault, hmid, hfault, pushAll_eq_error_of_push hmid hfault⟩
  · intro haccepts
    obtain ⟨b', h⟩ := (exists_pushAll_iff hb.itemType_eq).2 haccepts
    exact ⟨b', h, holds_finish hb hreal h⟩

/-- An absent list, an empty one that knows no item type, one of numbers, and one of texts. -/
def listSample : List Value :=
  [.null, .list .null [], .list .int32 [.int32 1], .list .string [.string "a"]]

/-- The list of texts is refused after the list of numbers. The column of those before it has their
item type. -/
theorem pushAll_exact_listSample :
    ∃ b, ofType .list true = .ok b ∧ (∃ fault, b.pushAll listSample = .error fault) ∧
      ∃ b', b.pushAll (listSample.take 3) = .ok b' ∧
        b.Holds (listSample.take 3) (b'.finish 0 none) := by
  have hnew : ofType .list true = .ok (value (ValueBuilder.ofStorage (.lists .null []) true)) := rfl
  have hb := fresh_of_ofType hnew
  have hreal : ∀ v ∈ listSample, v.isReserved = false := by simp [listSample, Value.isReserved]
  have haccepts : Accepts _ (listSample.take 3) := (exists_pushAll_iff hb.itemType_eq).1 ⟨_, rfl⟩
  obtain ⟨_, fault, -, -, hfault⟩ := (pushAll_exact hb hreal).1 _ _ [] rfl haccepts
    (.itemType (show .int32 ∈ _ by decide) ⟨by decide, by decide, by decide⟩)
  obtain ⟨b', hb', hholds⟩ :=
    (pushAll_exact hb fun v hv => hreal v (List.mem_of_mem_take hv)).2 haccepts
  exact ⟨_, hnew, ⟨fault, hfault⟩, b', hb', hholds 0 none⟩

end ColumnFlow.Builder
