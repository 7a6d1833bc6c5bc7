import ColumnFlow.Proofs.Builder.Profile

/-!
# What a builder accepts

A builder refuses null unless it is optional, values of another type than its own, vertices of
another label if it has one label, and lists whose item type clashes with that of a list before.
Nothing else is refused, so a sequence of values is accepted exactly if none of its values is
refused after those before it (`Builder.exists_pushAll_iff`).
-/

namespace ColumnFlow

open Rows

/-! ## Item types -/

/-- All item types that are known are one. -/
def ItemTypesAgree (types : List ElemType) : Prop :=
  ∀ s ∈ types, ∀ t ∈ types, ¬ Storage.ItemTypesClash s t

/-- The one item type that is known, or null if none is. -/
structure CommonItemType (types : List ElemType) (type : ElemType) : Prop where
  of_mem : ∀ s ∈ types, s = .null ∨ s = type
  known : type = .null ∨ type ∈ types

namespace CommonItemType

variable {types : List ElemType} {type t : ElemType}

theorem nil : CommonItemType [] .null := ⟨by simp, .inl rfl⟩

/-- A type clashes with one of several exactly if it clashes with the one that they have in
common. -/
theorem clash_iff (h : CommonItemType types type) :
    (∃ s ∈ types, Storage.ItemTypesClash s t) ↔ Storage.ItemTypesClash type t := by
  constructor
  · intro hclash
    obtain ⟨s, hs, hclash⟩ := hclash
    rwa [← (h.of_mem s hs).resolve_left hclash.1]
  · exact fun hclash => ⟨type, h.known.resolve_left hclash.1, hclash⟩

theorem concat (h : CommonItemType types type) (hclash : ¬ Storage.ItemTypesClash type t) :
    CommonItemType (types ++ [t]) (if type = .null then t else type) := by
  obtain ⟨hmem, hknown⟩ := h
  unfold Storage.ItemTypesClash at hclash
  by_cases htype : type = .null
  · rw [if_pos htype]
    refine ⟨fun s hs => ?_, by simp⟩
    rcases List.mem_append.1 hs with hs | hs
    · exact .inl ((hmem s hs).elim id fun heq => heq.trans htype)
    · exact .inr (List.mem_singleton.1 hs)
  · rw [if_neg htype]
    refine ⟨fun s hs => ?_, .inr (List.mem_append_left _ (hknown.resolve_left htype))⟩
    rcases List.mem_append.1 hs with hs | hs
    · exact hmem s hs
    · obtain rfl := List.mem_singleton.1 hs
      grind

theorem agree (h : CommonItemType types type) : ItemTypesAgree types := by
  intro s hs t ht hclash
  have hs := (h.of_mem s hs).resolve_left hclash.1
  have ht := (h.of_mem t ht).resolve_left hclash.2.1
  exact hclash.2.2 (hs.trans ht.symm)

end CommonItemType

/-! ## Storage -/

theorem Storage.exists_push_iff {s : Storage} {v : Value} :
    (∃ t, s.push v = .ok t) ↔ v.elemType = s.elemType ∧ ¬ ItemTypesClash s.itemType v.itemType := by
  cases s with
  | scalars type cells =>
    have hclash : ¬ ItemTypesClash .null v.itemType := fun h => h.1 rfl
    cases type <;> cases v <;>
      simp [push, ScalarType.ofValue?, elemType, itemType, Value.elemType, ScalarType.elemType,
        hclash]
  | lists known cells =>
    cases v with
    | list type items =>
      rw [itemType, Value.itemType, ← exists_mergeItemTypes_iff]
      simp [push, Value.list?, elemType, Value.elemType, bind_eq_ok_iff, pure, Except.pure]
    | _ => simp [push, Value.list?, elemType, Value.elemType]

/-! ## Builders -/

namespace Builder

variable {b b' mid : Builder} {types : List ElemType} {v : Value} {values : List Value}

/-- What a builder refuses after lists of these item types. -/
inductive Refuses (b : Builder) (types : List ElemType) : Value → Prop where
  | null (h : b.profile.optional = false) : Refuses b types .null
  | elemType {v : Value} (hv : v.isNull = false) (h : v.elemType ≠ b.profile.elemType) :
      Refuses b types v
  | label {label : Label} {x : Vertex} (h : b.profile.layout? = some (.single label))
      (hx : x.label ≠ label) : Refuses b types (.vertex x)
  | itemType {type : ElemType} {v : Value} (htype : type ∈ types)
      (h : Storage.ItemTypesClash type v.itemType) : Refuses b types v

/-- No value is refused after those before it. -/
def Accepts (b : Builder) (values : List Value) : Prop :=
  ∀ (before : List Value) (v : Value) (after : List Value), values = before ++ v :: after →
    ¬ b.Refuses (before.map Value.itemType) v

theorem refuses_null_iff : b.Refuses types .null ↔ b.profile.optional = false := by
  constructor
  · intro h
    cases h with
    | null h => exact h
    | elemType hv => cases hv
    | itemType _ h => exact absurd rfl h.2.1
  · exact .null

theorem refuses_iff (hv : v.isNull = false) :
    b.Refuses types v ↔
      v.elemType ≠ b.profile.elemType ∨
        (∃ label x, b.profile.layout? = some (.single label) ∧ v = .vertex x ∧ x.label ≠ label) ∨
          ∃ type ∈ types, Storage.ItemTypesClash type v.itemType := by
  constructor
  · intro h
    cases h with
    | null => cases hv
    | elemType _ h => exact .inl h
    | label h hx => exact .inr (.inl ⟨_, _, h, rfl, hx⟩)
    | itemType htype h => exact .inr (.inr ⟨_, htype, h⟩)
  · rintro (h | ⟨label, x, h, rfl, hx⟩ | ⟨type, htype, h⟩)
    · exact .elemType hv h
    · exact .label h hx
    · exact .itemType htype h

/-- Only the profile and the common item type matter to what is refused. -/
theorem refuses_congr {type : ElemType} (hprofile : mid.profile = b.profile)
    (htypes : CommonItemType types type) : mid.Refuses [type] v ↔ b.Refuses types v := by
  cases hv : v.isNull with
  | true => rw [Value.isNull_iff.1 hv, refuses_null_iff, refuses_null_iff, hprofile]
  | false => simp [refuses_iff hv, hprofile, htypes.clash_iff]

/-! ## One push -/

theorem exists_pushNull_iff : (∃ b', b.pushNull = .ok b') ↔ b.profile.optional = true := by
  cases b with
  | single c =>
    cases hopt : c.optional <;> simp [pushNull, profile, SingleVertices.pushNull, hopt]
  | segmented c => simp [pushNull, profile]
  | mixed c =>
    cases hopt : c.optional <;> simp [pushNull, profile, MixedVertices.pushNull, hopt]
  | value c =>
    cases hbits : c.validity <;> simp [pushNull, profile, ValueBuilder.pushNull, hbits]
  | edge c | path c =>
    cases hbits : c.validity <;> simp [pushNull, profile, RecordColumn.pushNull, hbits]

theorem exists_pushValue_iff (hv : v.isNull = false) :
    (∃ b', b.pushValue v = .ok b') ↔ ¬ b.Refuses [b.itemType] v := by
  have hclash : ∀ t, ¬ Storage.ItemTypesClash .null t := fun _ h => h.1 rfl
  rw [refuses_iff hv]
  cases b with
  | single c =>
    cases v with
    | vertex x =>
      by_cases hlabel : c.label = x.label <;>
        simp [pushValue, profile, SingleVertices.push, itemType, Value.vertex?, Value.elemType,
          hlabel, hclash, eq_comm]
    | _ => simp [pushValue, profile, Value.vertex?, Value.elemType]
  | segmented c | mixed c | edge c | path c =>
    cases v <;> simp [pushValue, profile, itemType, Value.vertex?, Value.edge?, Value.path?,
      Value.elemType, hclash]
  | value c =>
    have hpush : (∃ d, c.push v = .ok d) ↔ ∃ storage, c.storage.push v = .ok storage := by
      simp [ValueBuilder.push, bind_eq_ok_iff, pure, Except.pure]
    rw [pushValue, exists_map_eq_ok_iff, hpush, Storage.exists_push_iff]
    simp [profile, itemType, ValueBuilder.elemType]

/-- A push refuses what the builder refuses after a list of the item type that it keeps. -/
theorem exists_push_iff : (∃ b', b.push v = .ok b') ↔ ¬ b.Refuses [b.itemType] v := by
  cases hv : v.isNull with
  | true =>
    rw [Value.isNull_iff.1 hv, refuses_null_iff, Bool.not_eq_false]
    exact exists_pushNull_iff
  | false =>
    simp only [push, hv]
    exact exists_pushValue_iff hv

/-! ## All pushes -/

/-- The builder keeps its profile, and the item type that the lists have in common. -/
theorem types_of_pushAll (hb : b.itemType = .null) (h : b.pushAll values = .ok b') :
    b'.profile = b.profile ∧ CommonItemType (values.map Value.itemType) b'.itemType := by
  refine foldlM_induction (P := fun values b' => b'.profile = b.profile ∧
    CommonItemType (values.map Value.itemType) b'.itemType) ⟨rfl, hb ▸ .nil⟩ ?_ h
  intro before mid v b' hmid hpush
  obtain ⟨hprofile, hcommon⟩ := hmid
  obtain ⟨hprofile', hitem⟩ := types_of_push hpush
  refine ⟨hprofile'.trans hprofile, ?_⟩
  have hclash : ¬ Storage.ItemTypesClash mid.itemType v.itemType := fun h =>
    exists_push_iff.1 ⟨b', hpush⟩ (.itemType (List.mem_singleton_self _) h)
  rw [List.map_append, hitem]
  exact hcommon.concat hclash

/-- After accepted pushes, the next one refuses what the builder refuses after these values. -/
theorem exists_push_iff_of_pushAll (hb : b.itemType = .null) (h : b.pushAll values = .ok mid) :
    (∃ b', mid.push v = .ok b') ↔ ¬ b.Refuses (values.map Value.itemType) v := by
  obtain ⟨hprofile, hcommon⟩ := types_of_pushAll hb h
  rw [exists_push_iff, refuses_congr hprofile hcommon]

/-- A builder without lists takes all values exactly if it accepts each after those before. -/
theorem exists_pushAll_iff (hb : b.itemType = .null) :
    (∃ b', b.pushAll values = .ok b') ↔ b.Accepts values :=
  exists_foldlM_iff fun _ _ _ hmid => exists_push_iff_of_pushAll hb hmid

/-- Values that are not refused by themselves are all taken exactly if their item types agree. -/
theorem exists_pushAll_iff_agree (hb : b.itemType = .null)
    (hvalues : ∀ v ∈ values, ¬ b.Refuses [] v) :
    (∃ b', b.pushAll values = .ok b') ↔ ItemTypesAgree (values.map Value.itemType) := by
  constructor
  · intro hok
    obtain ⟨b', h⟩ := hok
    exact (types_of_pushAll hb h).2.agree
  · intro hagree
    rw [exists_pushAll_iff hb]
    rintro before v after rfl hrefused
    cases hrefused with
    | null h => exact hvalues .null (by simp) (.null h)
    | elemType hv h => exact hvalues v (by simp) (.elemType hv h)
    | label h hx => exact hvalues (.vertex _) (by simp) (.label h hx)
    | itemType htype h =>
      exact hagree _ (by simp [htype]) _ (by simp) h

end Builder

end ColumnFlow
