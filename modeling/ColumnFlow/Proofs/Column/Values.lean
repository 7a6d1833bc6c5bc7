import ColumnFlow.Column.Values
import ColumnFlow.Proofs.Bitmap.Presence
import ColumnFlow.Proofs.Column.Storage

/-!
# The rows of value columns

The rows of a value column are the values in its storage. In the optional form they stand under a
list of presence bits, and the placeholders in absent rows never show.
-/

namespace ColumnFlow

open Rows

namespace ValueColumn

variable {c d e : ValueColumn}

/-- What the rows hold. -/
def contents (c : ValueColumn) : List (Option Value) := c.storage.values.map some

theorem get_eq_ok_iff {i : Nat} {v : Value} :
    c.get i = .ok v ↔ c.storage.values[i]? = some v := Storage.get_eq_ok_iff

theorem storage_of_gather {offsets : List Nat} (h : c.gather offsets = .ok d) :
    c.storage.gather offsets = .ok d.storage := by
  obtain ⟨storage, hstorage, ⟨⟩⟩ := bind_eq_ok_iff.1 h
  exact hstorage

theorem exists_gather {offsets : List Nat} (hi : InRange c.size offsets) :
    ∃ d, c.gather offsets = .ok d ∧ Rows.gather c.contents offsets = .ok d.contents := by
  obtain ⟨storage, hstorage⟩ := Storage.exists_gather hi
  exact ⟨_, bind_eq_ok_iff.2 ⟨storage, hstorage, rfl⟩,
    gather_map _ (Storage.values_of_gather hstorage)⟩

theorem storage_of_append {id : ArenaId} (h : c.append id d = .ok e) :
    c.storage.append d.storage = .ok e.storage := by
  obtain ⟨storage, hstorage, ⟨⟩⟩ := bind_eq_ok_iff.1 h
  exact hstorage

theorem exists_append_iff (id : ArenaId) (h : c.elemType = d.elemType) :
    (∃ e, c.append id d = .ok e)
      ↔ ¬ Storage.ItemTypesClash c.storage.itemType d.storage.itemType := by
  rw [← Storage.exists_append_iff h]
  constructor
  · intro hok
    obtain ⟨e, he⟩ := hok
    exact ⟨e.storage, storage_of_append he⟩
  · intro hok
    obtain ⟨storage, hstorage⟩ := hok
    exact ⟨_, bind_eq_ok_iff.2 ⟨storage, hstorage, rfl⟩⟩

theorem values_of_append {id : ArenaId} (h : c.append id d = .ok e) :
    e.storage.values = c.storage.values ++ d.storage.values :=
  Storage.values_of_append (storage_of_append h)

theorem contents_of_append {id : ArenaId} (h : c.append id d = .ok e) :
    e.contents = c.contents ++ d.contents := by
  rw [contents, values_of_append h]
  exact List.map_append

end ValueColumn

namespace OptionalValueColumn

variable {c d e : OptionalValueColumn}

/-- There is a bit for each row. -/
def Aligned (c : OptionalValueColumn) : Prop := Bitmap.Aligned c.size (some c.validity)

/-- What the rows hold, nothing where they are absent. -/
def contents (c : OptionalValueColumn) : List (Option Value) :=
  mask c.values.storage.values c.validity.toList

theorem contents_ofList (values : ValueColumn) (bits : List Bool) :
    contents ⟨values, Bitmap.ofList bits⟩ = mask values.storage.values bits :=
  congrArg (mask _) (Bitmap.toList_ofList bits)

theorem length_validity (h : c.Aligned) : c.validity.toList.length = c.size :=
  Bitmap.length_presence h

theorem length_contents (h : c.Aligned) : c.contents.length = c.size := by
  rw [contents, length_mask, length_validity h, Storage.length_values]
  exact Nat.min_self _

theorem get_eq_ok_iff {i : Nat} {v : Value} :
    c.get i = .ok v ↔ c.values.storage.values[i]? = some v := Storage.get_eq_ok_iff

theorem hasValue_eq_ok_iff {i : Nat} {b : Bool} :
    c.hasValue i = .ok b ↔ c.validity.toList[i]? = some b := Bitmap.get_eq_ok_iff

/-! ## Gathering -/

theorem storage_of_gather {offsets : List Nat} (h : c.gather offsets = .ok d) :
    c.values.storage.gather offsets = .ok d.values.storage := by
  obtain ⟨values, hvalues, h⟩ := bind_eq_ok_iff.1 h
  obtain ⟨validity, -, ⟨⟩⟩ := bind_eq_ok_iff.1 h
  exact ValueColumn.storage_of_gather hvalues

theorem exists_gather (hc : c.Aligned) {offsets : List Nat} (hi : InRange c.size offsets) :
    ∃ d, c.gather offsets = .ok d ∧ d.Aligned ∧
      Rows.gather c.contents offsets = .ok d.contents := by
  obtain ⟨storage, hstorage⟩ := Storage.exists_gather hi
  have hvalues := Storage.values_of_gather hstorage
  obtain ⟨bits, hbits⟩ := exists_gather_iff.2 ((length_validity hc).symm ▸ hi)
  have hlen : bits.length = storage.size := by
    rw [← Storage.length_values, length_of_gather hbits, length_of_gather hvalues]
  refine ⟨⟨⟨storage, c.values.arena⟩, Bitmap.ofList bits⟩,
    bind_eq_ok_iff.2 ⟨_, bind_eq_ok_iff.2 ⟨storage, hstorage, rfl⟩,
      bind_eq_ok_iff.2 ⟨_, Bitmap.gather_eq_ok_iff.2 ⟨bits, hbits, rfl⟩, rfl⟩⟩,
    Bitmap.aligned_ofList hlen, ?_⟩
  rw [contents_ofList]
  exact gather_zipWith keep hvalues hbits

/-- A gather with rows that have no source, of storage under presence bits. -/
theorem exists_gatherOptional_storage {storage : Storage} (arena : Option Arena)
    {validity : Option Bitmap} (hv : Bitmap.Aligned storage.size validity)
    {offsets : List (Option Nat)} (hi : SourcesInRange storage.size offsets) :
    ∃ gathered bits, storage.gatherOptional offsets = .ok gathered ∧
      Bitmap.gatherOptional validity offsets = .ok bits ∧
      Aligned ⟨⟨gathered, arena⟩, bits⟩ ∧
      Rows.gatherOptional none (mask storage.values (Bitmap.presence storage.size validity)) offsets
        = .ok (contents ⟨⟨gathered, arena⟩, bits⟩) := by
  obtain ⟨gathered, hgathered⟩ := Storage.exists_gatherOptional hi
  have hvalues := Storage.values_of_gatherOptional hgathered
  obtain ⟨bits, hbits⟩ := exists_gatherOptional_iff (p := false).2
    ((Bitmap.length_presence hv).symm ▸ hi)
  have hlen : bits.length = gathered.size := by
    rw [← Storage.length_values, length_of_gatherOptional hbits, length_of_gatherOptional hvalues]
  refine ⟨gathered, Bitmap.ofList bits, hgathered,
    (Bitmap.gatherOptional_eq_ok_iff hi).2 ⟨bits, hbits, rfl⟩, Bitmap.aligned_ofList hlen, ?_⟩
  rw [contents_ofList]
  exact gatherOptional_zipWith keep hvalues hbits

theorem storage_of_gatherOptional {offsets : List (Option Nat)}
    (h : c.gatherOptional offsets = .ok d) :
    c.values.storage.gatherOptional offsets = .ok d.values.storage := by
  obtain ⟨storage, hstorage, h⟩ := bind_eq_ok_iff.1 h
  obtain ⟨validity, -, ⟨⟩⟩ := bind_eq_ok_iff.1 h
  exact hstorage

theorem exists_gatherOptional (hc : c.Aligned) {offsets : List (Option Nat)}
    (hi : SourcesInRange c.size offsets) :
    ∃ d, c.gatherOptional offsets = .ok d ∧ d.Aligned ∧
      Rows.gatherOptional none c.contents offsets = .ok d.contents := by
  obtain ⟨storage, bits, hstorage, hbits, ha, h⟩ :=
    exists_gatherOptional_storage c.values.arena hc hi
  exact ⟨_, bind_eq_ok_iff.2 ⟨storage, hstorage, bind_eq_ok_iff.2 ⟨bits, hbits, rfl⟩⟩, ha, h⟩

/-! ## Appending -/

theorem values_of_append {id : ArenaId} (h : c.append id d = .ok e) :
    c.values.append id d.values = .ok e.values := by
  obtain ⟨values, hvalues, ⟨⟩⟩ := bind_eq_ok_iff.1 h
  exact hvalues

theorem exists_append_iff (id : ArenaId) (h : c.elemType = d.elemType) :
    (∃ e, c.append id d = .ok e)
      ↔ ¬ Storage.ItemTypesClash c.values.storage.itemType d.values.storage.itemType := by
  rw [← ValueColumn.exists_append_iff id h]
  constructor
  · intro hok
    obtain ⟨e, he⟩ := hok
    exact ⟨e.values, values_of_append he⟩
  · intro hok
    obtain ⟨values, hvalues⟩ := hok
    exact ⟨_, bind_eq_ok_iff.2 ⟨values, hvalues, rfl⟩⟩

theorem aligned_of_append {id : ArenaId} (hc : c.Aligned) (hd : d.Aligned)
    (h : c.append id d = .ok e) : e.Aligned := by
  obtain ⟨values, hvalues, ⟨⟩⟩ := bind_eq_ok_iff.1 h
  have hwf := (hc c.validity rfl).1
  intro b hb
  cases hb
  -- the bits of the second column are pushed behind those of the first
  refine ⟨hwf.extend _, ?_⟩
  rw [← Bitmap.length_toList, hwf.toList_extend, List.length_append, length_validity hc,
    length_validity hd]
  show c.values.storage.size + d.values.storage.size = values.storage.size
  rw [← Storage.length_values, ← Storage.length_values, ← Storage.length_values,
    ValueColumn.values_of_append hvalues, List.length_append]

theorem contents_of_append {id : ArenaId} (hc : c.Aligned) (h : c.append id d = .ok e) :
    e.contents = c.contents ++ d.contents := by
  obtain ⟨values, hvalues, ⟨⟩⟩ := bind_eq_ok_iff.1 h
  rw [contents, ValueColumn.values_of_append hvalues, (hc c.validity rfl).1.toList_extend]
  refine List.zipWith_append ?_
  rw [length_validity hc, Storage.length_values]
  rfl

/-! ## Signatures -/

theorem presentSignatures_eq (h : c.Aligned) :
    c.presentSignatures = .ok (mask c.values.storage.signatures c.validity.toList) := by
  have hlen : c.values.storage.signatures.length = c.size := by
    rw [(Storage.samePattern_signatures _).length_eq, Storage.length_values]
    rfl
  have hbits := map_present_eq ((length_validity h).trans hlen.symm)
    fun i b hb => hasValue_eq_ok_iff.2 hb
  exact mapM_zipIdx_eq_ok_iff.2 ⟨_, hbits, by rw [List.zipIdx_map_fst]⟩

theorem signatures_eq (h : c.Aligned) :
    c.signatures = .ok (ordinals (mask c.values.storage.signatures c.validity.toList)) := by
  rw [signatures, presentSignatures_eq h]
  rfl

/-- Placeholders have numbers too, but they are masked before the rows are numbered. -/
theorem samePattern_signatures (c : OptionalValueColumn) :
    SamePattern (ordinals (mask c.values.storage.signatures c.validity.toList)) c.contents :=
  (samePattern_ordinals _).trans ((Storage.samePattern_signatures _).mask _)

end OptionalValueColumn

namespace ValueColumn

variable {c : ValueColumn}

theorem storage_of_gatherOptional {d : OptionalValueColumn} {offsets : List (Option Nat)}
    (h : c.gatherOptional offsets = .ok d) :
    c.storage.gatherOptional offsets = .ok d.values.storage := by
  obtain ⟨storage, hstorage, h⟩ := bind_eq_ok_iff.1 h
  obtain ⟨validity, -, ⟨⟩⟩ := bind_eq_ok_iff.1 h
  exact hstorage

theorem exists_gatherOptional {offsets : List (Option Nat)} (hi : SourcesInRange c.size offsets) :
    ∃ d, c.gatherOptional offsets = .ok d ∧ d.Aligned ∧
      Rows.gatherOptional none c.contents offsets = .ok d.contents := by
  obtain ⟨storage, bits, hstorage, hbits, ha, h⟩ :=
    OptionalValueColumn.exists_gatherOptional_storage c.arena
      (Bitmap.aligned_none c.storage.size) hi
  refine ⟨_, bind_eq_ok_iff.2 ⟨storage, hstorage, bind_eq_ok_iff.2 ⟨bits, hbits, rfl⟩⟩, ha, ?_⟩
  rw [contents, ← mask_replicate_true, Storage.length_values]
  exact h

end ValueColumn

end ColumnFlow
