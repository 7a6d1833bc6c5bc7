import ColumnFlow.Builder.Values
import ColumnFlow.Proofs.Column.Records
import ColumnFlow.Proofs.Column.Values

/-!
# Value, edge and path columns in the making

A push adds a cell and, where there is a bitmap, a bit. Both are read together as the rows so far,
to which a push adds one: the value pushed, or nothing for an absent row.
-/

namespace ColumnFlow

open Rows

/-! ## Records -/

namespace RecordColumn

variable {α : Type} {c d : RecordColumn α}

theorem aligned_empty (optional : Bool) : (empty optional : RecordColumn α).Aligned := by
  cases optional
  · exact Bitmap.aligned_none 0
  · exact Bitmap.aligned_empty

theorem aligned_push (h : c.Aligned) (cell : α) : (c.push cell).Aligned := by
  rw [Aligned, push, size, List.length_append]
  exact Bitmap.aligned_push h true

theorem contents_push (h : c.Aligned) (cell : α) :
    (c.push cell).contents = c.contents ++ [some cell] := by
  rw [contents, push, size, List.length_append]
  show mask _ (Bitmap.presence (c.size + 1) _) = _
  rw [Bitmap.presence_push_true h]
  exact mask_concat (Bitmap.length_presence h) cell true

theorem pushNull_eq_ok [Record α] (h : c.pushNull = .ok d) :
    ∃ b, c.validity = some b ∧ d = ⟨c.cells ++ [Record.placeholder], some (b.push false)⟩ := by
  unfold pushNull at h
  split at h
  · next b hb =>
    cases h
    exact ⟨b, hb, rfl⟩
  · cases h

theorem aligned_of_pushNull [Record α] (hc : c.Aligned) (h : c.pushNull = .ok d) : d.Aligned := by
  obtain ⟨b, hb, rfl⟩ := pushNull_eq_ok h
  have hpush := Bitmap.aligned_push hc false
  rw [hb] at hpush
  rwa [Aligned, size, List.length_append]

theorem contents_of_pushNull [Record α] (hc : c.Aligned) (h : c.pushNull = .ok d) :
    d.contents = c.contents ++ [none] := by
  obtain ⟨b, hb, rfl⟩ := pushNull_eq_ok h
  have hlen := Bitmap.length_presence hc
  rw [contents, contents, hb]
  rw [hb] at hlen
  show mask _ (b.push false).toList = _
  rw [(hc b hb).1.toList_push]
  exact mask_concat hlen Record.placeholder false

end RecordColumn

/-! ## Values -/

theorem Value.eq_toValue_of_list? {v : Value} {l : ListValue} (h : v.list? = some l) :
    v = l.toValue := by
  cases v <;> cases h
  rfl

namespace Storage

variable {s t : Storage} {v : Value}

/-- A cell goes behind those of its type, and a list may tell the item type. -/
inductive Pushed : Storage → Value → Storage → Prop where
  | scalar (type : ScalarType) (cells : List type.Cell) (cell : type.Cell) :
      Pushed (scalars type cells) (type.toValue cell) (scalars type (cells ++ [cell]))
  | list {known merged : ElemType} (cells : List ListValue) (l : ListValue)
      (h : mergeItemTypes known l.itemType = .ok merged) :
      Pushed (lists known cells) l.toValue (lists merged (cells ++ [l]))

theorem pushed_of_push (h : s.push v = .ok t) : Pushed s v t := by
  cases s with
  | scalars type cells =>
    rw [push] at h
    cases hcell : type.ofValue? v with
    | none =>
      rw [hcell] at h
      cases h
    | some cell =>
      rw [hcell] at h
      cases h
      rw [ScalarType.ofValue?_eq_some_iff.1 hcell]
      exact .scalar type cells cell
  | lists known cells =>
    rw [push] at h
    cases hlist : v.list? with
    | none =>
      rw [hlist] at h
      cases h
    | some l =>
      rw [hlist] at h
      obtain ⟨merged, hmerge, ⟨⟩⟩ := bind_eq_ok_iff.1 h
      rw [Value.eq_toValue_of_list? hlist]
      exact .list cells l hmerge

theorem values_of_push (h : s.push v = .ok t) : t.values = s.values ++ [v] := by
  cases pushed_of_push h with
  | scalar type cells cell => exact List.map_append
  | list cells l hmerge => exact List.map_append

theorem values_pushPlaceholder (s : Storage) :
    s.pushPlaceholder.values = s.values ++ [s.placeholder] := by
  cases s <;> exact List.map_append

end Storage

namespace ValueBuilder

variable {b b' : ValueBuilder}

/-- The bitmap, if there is one, has a bit for each row. -/
def Aligned (b : ValueBuilder) : Prop := Bitmap.Aligned b.storage.size b.validity

/-- What the rows hold, nothing where they are absent. -/
def contents (b : ValueBuilder) : List (Option Value) :=
  mask b.storage.values (Bitmap.presence b.storage.size b.validity)

theorem aligned_of_empty {type : ElemType} {optional : Bool}
    (h : ValueBuilder.empty type optional = .ok b) : b.Aligned ∧ b.contents = [] := by
  obtain ⟨storage, hstorage, ⟨⟩⟩ := bind_eq_ok_iff.1 h
  have hnil : storage.values = [] := by
    unfold Storage.empty at hstorage
    split at hstorage
    · cases hstorage
      rfl
    · split at hstorage <;> cases hstorage
      rfl
  have hsize : storage.size = 0 := by
    rw [← Storage.length_values, hnil]
    rfl
  refine ⟨?_, by rw [contents, ofStorage, hnil]; rfl⟩
  rw [Aligned, ofStorage, hsize]
  cases optional
  · exact Bitmap.aligned_none 0
  · exact Bitmap.aligned_empty

theorem length_presence (h : b.Aligned) :
    (Bitmap.presence b.storage.size b.validity).length = b.storage.values.length := by
  rw [Bitmap.length_presence h, Storage.length_values]

/-- One more row, present, and none of the others changed. -/
theorem pushed_of_push {v : Value} (hb : b.Aligned) (h : b.push v = .ok b') :
    b'.Aligned ∧ b'.contents = b.contents ++ [some v] := by
  obtain ⟨storage, hstorage, ⟨⟩⟩ := bind_eq_ok_iff.1 h
  have hvalues := Storage.values_of_push hstorage
  have hsize : storage.size = b.storage.size + 1 := by
    rw [← Storage.length_values, hvalues, List.length_append, Storage.length_values]
    rfl
  constructor
  · rw [Aligned, hsize]
    exact Bitmap.aligned_push hb true
  · rw [contents, hvalues, hsize, Bitmap.presence_push_true hb]
    exact mask_concat (length_presence hb) v true

/-- One more row, absent, and none of the others changed. -/
theorem pushed_of_pushNull (hb : b.Aligned) (h : b.pushNull = .ok b') :
    b'.Aligned ∧ b'.contents = b.contents ++ [none] := by
  unfold pushNull at h
  split at h
  · next validity hvalidity =>
    cases h
    have hvalues := Storage.values_pushPlaceholder b.storage
    have hsize : b.storage.pushPlaceholder.size = b.storage.size + 1 := by
      rw [← Storage.length_values, hvalues, List.length_append, Storage.length_values]
      rfl
    have hlen := length_presence hb
    have hpush := Bitmap.aligned_push hb false
    rw [hvalidity] at hlen hpush
    constructor
    · rw [Aligned, hsize]
      exact hpush
    · rw [contents, contents, hvalues, hvalidity]
      show mask _ (validity.push false).toList = _
      rw [(hb validity hvalidity).1.toList_push]
      exact mask_concat hlen b.storage.placeholder false
  · cases h

end ValueBuilder

end ColumnFlow
