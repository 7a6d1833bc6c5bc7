import ColumnFlow.Proofs.Builder.Profile

/-!
# Frames

The frame of a column is what does not depend on its rows: its profile, the labels of its vertices,
and the item type of its lists. It decides which columns can be appended, and it does not matter in
which order three frames are put together (`Frame.join_assoc`, `Frame.joins_assoc`): vertices that
come under mixed labels stay there, and an item type that is known is kept.
-/

namespace ColumnFlow

/-- What a column is, apart from its rows and its arena. -/
structure Frame where
  profile : Profile
  labels : LabelSet
  itemType : ElemType

/-! ## Layouts and item types put together -/

/-- The layout of vertices of two layouts. They stay under one label if both are under it. -/
def joinLayouts (a b : Option VertexLayout) : Option VertexLayout :=
  if a = b then a else some .mixed

theorem joinLayouts_self (a : Option VertexLayout) : joinLayouts a a = a := if_pos rfl

theorem joinLayouts_of_ne {a b : Option VertexLayout} (h : a ≠ b) :
    joinLayouts a b = some .mixed := if_neg h

theorem joinLayouts_eq_mixed {a b : Option VertexLayout}
    (h : a = some .mixed ∨ b = some .mixed) : joinLayouts a b = some .mixed := by
  by_cases hab : a = b
  · subst hab
    rw [joinLayouts_self, or_self_iff.1 h]
  · exact joinLayouts_of_ne hab

theorem joinLayouts_ne_segmented {a b : Option VertexLayout} (h : a ≠ some .segmented) :
    joinLayouts a b ≠ some .segmented := by
  by_cases hab : a = b
  · rwa [joinLayouts, if_pos hab]
  · simp [joinLayouts_of_ne hab]

theorem joinLayouts_assoc (a b c : Option VertexLayout) :
    joinLayouts (joinLayouts a b) c = joinLayouts a (joinLayouts b c) := by
  by_cases hab : a = b
  · subst hab
    rw [joinLayouts_self]
    by_cases hac : a = c
    · subst hac
      rw [joinLayouts_self, joinLayouts_self]
    · rw [joinLayouts_of_ne hac, joinLayouts_eq_mixed (.inr rfl)]
  · rw [joinLayouts_of_ne hab, joinLayouts_eq_mixed (.inl rfl)]
    by_cases hbc : b = c
    · subst hbc
      rw [joinLayouts_self, joinLayouts_of_ne hab]
    · rw [joinLayouts_of_ne hbc, joinLayouts_eq_mixed (.inr rfl)]

/-- The item type of lists of two item types, as far as one of them is known. -/
def joinItemTypes (known incoming : ElemType) : ElemType :=
  if known = .null then incoming else known

theorem joinItemTypes_assoc (a b c : ElemType) :
    joinItemTypes (joinItemTypes a b) c = joinItemTypes a (joinItemTypes b c) := by
  by_cases ha : a = .null <;> simp [joinItemTypes, ha]

/-- Three item types clash in one order if they do in the other: if two of them are known and
differ. -/
theorem itemTypesClash_assoc (a b c : ElemType) :
    Storage.ItemTypesClash a b ∨ Storage.ItemTypesClash (joinItemTypes a b) c ↔
      Storage.ItemTypesClash b c ∨ Storage.ItemTypesClash a (joinItemTypes b c) := by
  by_cases ha : a = .null
  · simp [Storage.ItemTypesClash, joinItemTypes, ha]
  · by_cases hb : b = .null
    · simp [Storage.ItemTypesClash, joinItemTypes, ha, hb]
    · by_cases hab : a = b
      · simp [Storage.ItemTypesClash, joinItemTypes, hab, hb]
      · simp [Storage.ItemTypesClash, joinItemTypes, ha, hb, hab]

theorem Storage.types_of_append {s t u : Storage} (h : s.append t = .ok u) :
    u.elemType = s.elemType ∧ u.itemType = joinItemTypes s.itemType t.itemType := by
  cases appended_of_append h with
  | scalars type xs ys => exact ⟨rfl, rfl⟩
  | lists xs ys hmerge =>
    have hmerged := mergeItemTypes_of_not_clash (exists_mergeItemTypes_iff.1 ⟨_, hmerge⟩)
    exact ⟨rfl, Except.ok.inj (hmerge.symm.trans hmerged)⟩

/-! ## Frames put together -/

namespace Frame

variable {f g h : Frame}

/-- The frame of a column in which rows may be absent. -/
def nullable (f : Frame) : Frame :=
  { f with
    profile := { f.profile with
      kind := if f.profile.kind = .value then .optionalValue else f.profile.kind
      optional := true } }

theorem nullable_nullable (f : Frame) : f.nullable.nullable = f.nullable := by
  by_cases hkind : f.profile.kind = .value <;> simp [nullable, hkind]

/-- Columns of the two frames can be appended. -/
structure Joins (f g : Frame) : Prop where
  kind_eq : f.profile.kind = g.profile.kind
  elemType_eq : f.profile.elemType = g.profile.elemType
  left : f.profile.layout? ≠ some .segmented
  right : g.profile.layout? ≠ some .segmented
  items : ¬ Storage.ItemTypesClash f.itemType g.itemType

/-- The frame of a column appended to another. -/
def join (f g : Frame) : Frame where
  profile := { f.profile with
    optional := f.profile.optional || g.profile.optional
    layout? := joinLayouts f.profile.layout? g.profile.layout? }
  labels := f.labels.union g.labels
  itemType := joinItemTypes f.itemType g.itemType

theorem join_assoc (f g h : Frame) : (f.join g).join h = f.join (g.join h) := by
  simp [join, Bool.or_assoc, joinLayouts_assoc, LabelSet.union_assoc, joinItemTypes_assoc]

theorem joins_assoc : f.Joins g ∧ (f.join g).Joins h ↔ g.Joins h ∧ f.Joins (g.join h) := by
  have hitems := not_congr
    (itemTypesClash_assoc f.itemType g.itemType h.itemType)
  rw [not_or, not_or] at hitems
  constructor
  · intro hjoins
    obtain ⟨hfg, hfgh⟩ := hjoins
    obtain ⟨hgh, hfgh'⟩ := hitems.1 ⟨hfg.items, hfgh.items⟩
    exact ⟨⟨hfg.kind_eq.symm.trans hfgh.kind_eq, hfg.elemType_eq.symm.trans hfgh.elemType_eq,
      hfg.right, hfgh.right, hgh⟩,
      ⟨hfg.kind_eq, hfg.elemType_eq, hfg.left, joinLayouts_ne_segmented hfg.right, hfgh'⟩⟩
  · intro hjoins
    obtain ⟨hgh, hfgh⟩ := hjoins
    obtain ⟨hfg, hfgh'⟩ := hitems.2 ⟨hgh.items, hfgh.items⟩
    exact ⟨⟨hfgh.kind_eq, hfgh.elemType_eq, hfgh.left, hgh.left, hfg⟩,
      ⟨hfgh.kind_eq.trans hgh.kind_eq, hfgh.elemType_eq.trans hgh.elemType_eq,
        joinLayouts_ne_segmented hfgh.left, hgh.right, hfgh'⟩⟩

/-- Only vertices have layouts and labels to put together. -/
theorem join_of_no_layout (kind kind' : ColumnKind) (type type' : ElemType)
    (optional optional' : Bool) (itemType itemType' : ElemType) :
    join ⟨⟨kind, type, optional, none⟩, .empty, itemType⟩
        ⟨⟨kind', type', optional', none⟩, .empty, itemType'⟩ =
      ⟨⟨kind, type, optional || optional', none⟩, .empty, joinItemTypes itemType itemType'⟩ := by
  simp [join, joinLayouts]

end Frame

/-! ## Frames of columns -/

namespace Column

variable {c d : Column}

/-- The labels of the vertices. There are none in other columns. -/
def labels : Column → LabelSet
  | vertex c => c.labels
  | edge _ | value _ | optionalValue _ | path _ => LabelSet.empty

/-- The frame of a column. -/
def frame (c : Column) : Frame := ⟨c.profile, c.labels, c.itemType⟩

theorem frame_single (s : SingleVertices) :
    (vertex (.single s)).frame =
      ⟨⟨.vertex, .vertex, s.optional, some (.single s.label)⟩, .ofList [s.label], .null⟩ := rfl

theorem frame_mixed (m : MixedVertices) :
    (vertex (.mixed m)).frame = ⟨⟨.vertex, .vertex, m.optional, some .mixed⟩, m.labels, .null⟩ :=
  rfl

theorem frame_edge (c : EdgeColumn) :
    (edge c).frame = ⟨⟨.edge, .edge, c.validity.isSome, none⟩, .empty, .null⟩ := rfl

theorem frame_path (c : PathColumn) :
    (path c).frame = ⟨⟨.path, .path, c.validity.isSome, none⟩, .empty, .null⟩ := rfl

theorem frame_value (c : ValueColumn) :
    (value c).frame = ⟨⟨.value, c.storage.elemType, false, none⟩, .empty, c.storage.itemType⟩ :=
  rfl

theorem frame_optionalValue (c : OptionalValueColumn) :
    (optionalValue c).frame =
      ⟨⟨.optionalValue, c.values.storage.elemType, true, none⟩, .empty,
        c.values.storage.itemType⟩ := rfl

/-- The frame tells whether there are runs. -/
theorem isSegmented_eq (c : Column) :
    c.isSegmented = decide (c.frame.profile.layout? = some .segmented) := by
  rcases c with (s | s | m) | c | c | c | c <;> rfl

theorem isSegmented_of_layout (hc : c.isSegmented = false)
    (h : d.frame.profile.layout? = c.frame.profile.layout?) : d.isSegmented = false := by
  rw [isSegmented_eq, h, ← isSegmented_eq, hc]

end Column

end ColumnFlow
