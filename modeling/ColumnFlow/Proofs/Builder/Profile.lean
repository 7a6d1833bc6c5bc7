import ColumnFlow.Proofs.Builder.Rows
import ColumnFlow.Proofs.Column.Append

/-!
# What builders are for

The profile of a builder says what column it makes: its kind, the type of its rows, whether rows may
be absent, and how vertices are laid out. Pushes keep the profile (`Builder.types_of_push`), and
the finished column has it (`Builder.profile_finish`). The item type of lists is no part of it: a
push may tell one that was not known before.
-/

namespace ColumnFlow

open Rows

/-- How vertices are stored: under one label, in runs, or each with a label of its own. -/
inductive VertexLayout where
  | single (label : Label)
  | segmented
  | mixed
  deriving DecidableEq

/-- What a column is, whatever its rows are. -/
structure Profile where
  kind : ColumnKind
  elemType : ElemType
  optional : Bool
  /-- Only vertices have a layout. -/
  layout? : Option VertexLayout
  deriving DecidableEq

/-- How the vertices of a column are stored. -/
def Column.layout? : Column → Option VertexLayout
  | vertex (.single c) => some (.single c.label)
  | vertex (.segmented _) => some .segmented
  | vertex (.mixed _) => some .mixed
  | edge _ | value _ | optionalValue _ | path _ => none

/-- The profile of a column. -/
def Column.profile (c : Column) : Profile := ⟨c.kind, c.elemType, c.optional, c.layout?⟩

/-- The item type of a list, null for all other values. -/
def Value.itemType : Value → ElemType
  | list itemType _ => itemType
  | _ => .null

theorem mergeItemTypes_of_not_clash {known incoming : ElemType}
    (h : ¬ Storage.ItemTypesClash known incoming) :
    mergeItemTypes known incoming = .ok (if known = .null then incoming else known) := by
  unfold mergeItemTypes
  split
  · rfl
  · next hknown =>
    rw [if_pos]
    by_contra hne
    rw [not_or] at hne
    exact h ⟨hknown, hne.1, fun heq => hne.2 heq.symm⟩

namespace Storage

variable {s t : Storage} {v : Value}

/-- A push keeps the type, and an item type that was not known becomes that of the value. -/
theorem types_of_push (h : s.push v = .ok t) :
    t.elemType = s.elemType ∧
      t.itemType = if s.itemType = .null then v.itemType else s.itemType := by
  cases pushed_of_push h with
  | scalar type cells cell => exact ⟨rfl, by cases type <;> rfl⟩
  | list cells l hmerge =>
    have hmerged := mergeItemTypes_of_not_clash (exists_mergeItemTypes_iff.1 ⟨_, hmerge⟩)
    exact ⟨rfl, Except.ok.inj (hmerge.symm.trans hmerged)⟩

theorem types_pushPlaceholder (s : Storage) :
    s.pushPlaceholder.elemType = s.elemType ∧ s.pushPlaceholder.itemType = s.itemType := by
  cases s <;> exact ⟨rfl, rfl⟩

end Storage

namespace Builder

variable {b b' : Builder} {v : Value}

/-- The profile of the column in the making. -/
def profile : Builder → Profile
  | single c => ⟨.vertex, .vertex, c.optional, some (.single c.label)⟩
  | segmented _ => ⟨.vertex, .vertex, false, some .segmented⟩
  | mixed c => ⟨.vertex, .vertex, c.optional, some .mixed⟩
  | edge c => ⟨.edge, .edge, c.validity.isSome, none⟩
  | value b =>
    ⟨if b.validity.isSome then .optionalValue else .value, b.elemType, b.validity.isSome, none⟩
  | path c => ⟨.path, .path, c.validity.isSome, none⟩

/-- The item type of the lists so far, null if it is not known. -/
def itemType : Builder → ElemType
  | value b => b.storage.itemType
  | single _ | segmented _ | mixed _ | edge _ | path _ => .null

/-! ## Finished columns -/

theorem profile_toColumn (b : Builder) (arena : Option Arena) :
    (b.toColumn arena).profile = b.profile := by
  cases b with
  | value b =>
    cases hv : b.validity with
    | none => simp [toColumn_of_none hv, profile, hv]; rfl
    | some validity => simp [toColumn_of_some hv, profile, hv]; rfl
  | single c | segmented c | mixed c | edge c | path c => rfl

theorem profile_finish (b : Builder) (id : ArenaId) (arena : Option Arena) :
    (b.finish id arena).profile = b.profile := by
  obtain ⟨arena', harena⟩ := b.finish_eq_toColumn id arena
  rw [harena, profile_toColumn]

theorem itemType_toColumn (b : Builder) (arena : Option Arena) :
    (b.toColumn arena).itemType = b.itemType := by
  cases b with
  | value b =>
    exact toColumn_value_cases (P := (·.itemType = (value b).itemType)) rfl fun _ => rfl
  | single c | segmented c | mixed c | edge c | path c => rfl

theorem itemType_finish (b : Builder) (id : ArenaId) (arena : Option Arena) :
    (b.finish id arena).itemType = b.itemType := by
  obtain ⟨arena', harena⟩ := b.finish_eq_toColumn id arena
  rw [harena, itemType_toColumn]

/-! ## Pushes -/

/-- A push of a value keeps the profile, and an item type that was not known becomes that of the
value. -/
theorem types_of_pushValue (h : b.pushValue v = .ok b') :
    b'.profile = b.profile ∧
      b'.itemType = if b.itemType = .null then v.itemType else b.itemType := by
  cases valuePushed_of_pushValue h with
  | @single c d x hd =>
    simp only [SingleVertices.push] at hd
    split at hd <;> cases hd
    exact ⟨rfl, rfl⟩
  | segmented | mixed => exact ⟨rfl, rfl⟩
  | edge | path => exact ⟨by simp [profile, RecordColumn.push], rfl⟩
  | value hd =>
    obtain ⟨storage, hstorage, ⟨⟩⟩ := bind_eq_ok_iff.1 hd
    obtain ⟨helem, hitem⟩ := Storage.types_of_push hstorage
    exact ⟨by simp [profile, ValueBuilder.elemType, helem], hitem⟩

theorem types_of_pushNull (h : b.pushNull = .ok b') :
    b'.profile = b.profile ∧ b'.itemType = b.itemType := by
  cases b with
  | segmented c => cases h
  | single c | mixed c =>
    obtain ⟨d, hd, rfl⟩ := map_eq_ok_iff.1 h
    simp only [SingleVertices.pushNull, MixedVertices.pushNull] at hd
    split at hd <;> cases hd
    exact ⟨rfl, rfl⟩
  | edge c | path c =>
    obtain ⟨d, hd, rfl⟩ := map_eq_ok_iff.1 h
    obtain ⟨bits, hbits, rfl⟩ := RecordColumn.pushNull_eq_ok hd
    exact ⟨by simp [profile, hbits], rfl⟩
  | value c =>
    obtain ⟨d, hd, rfl⟩ := map_eq_ok_iff.1 h
    obtain ⟨helem, hitem⟩ := Storage.types_pushPlaceholder c.storage
    unfold ValueBuilder.pushNull at hd
    split at hd <;> cases hd
    next hbits => exact ⟨by simp [profile, ValueBuilder.elemType, hbits, helem], hitem⟩

theorem types_of_push (h : b.push v = .ok b') :
    b'.profile = b.profile ∧
      b'.itemType = if b.itemType = .null then v.itemType else b.itemType := by
  unfold push at h
  split at h
  · next hnull =>
    obtain ⟨hprofile, hitem⟩ := types_of_pushNull h
    refine ⟨hprofile, hitem.trans ?_⟩
    rw [Value.isNull_iff.1 hnull]
    split
    · assumption
    · rfl
  · exact types_of_pushValue h

/-! ## New builders -/

/-- A new builder of values is for the type that it was asked for, and knows no item type. -/
theorem types_of_empty {type : ElemType} {optional : Bool} {c : ValueBuilder}
    (h : ValueBuilder.empty type optional = .ok c) :
    (value c).profile = ⟨if optional then .optionalValue else .value, type, optional, none⟩ ∧
      (value c).itemType = .null := by
  obtain ⟨storage, hstorage, ⟨⟩⟩ := bind_eq_ok_iff.1 h
  have htypes : storage.elemType = type ∧ storage.itemType = .null := by
    unfold Storage.empty at hstorage
    split at hstorage
    · next t ht =>
      cases hstorage
      exact ⟨(ElemType.scalar?_eq_some_iff.1 ht).symm, rfl⟩
    · split at hstorage <;> cases hstorage
      next hlist => exact ⟨hlist.symm, rfl⟩
  cases optional <;>
    simp [profile, itemType, ValueBuilder.ofStorage, ValueBuilder.elemType, htypes]

/-- There is a new builder for every type but that of nulls. -/
theorem exists_ofType {type : ElemType} (h : type ≠ .null) (optional : Bool) :
    ∃ b, ofType type optional = .ok b ∧ b.profile.elemType = type ∧ b.profile.optional = optional ∧
      (∀ label, b.profile.layout? ≠ some (.single label)) ∧ b.itemType = .null := by
  cases type <;> first
    | exact absurd rfl h
    | cases optional <;> exact ⟨_, rfl, rfl, rfl, by rintro label ⟨⟩, rfl⟩

end Builder

end ColumnFlow
