import ColumnFlow.Proofs.Rows.Mask
import ColumnFlow.Rows.Ordinal
import Mathlib.Data.List.Nodup

/-!
# Equality patterns

What grouping needs of a sequence is which of its entries are equal: its pattern. Two sequences have
the same pattern if equal entries stand at the same places. Main statements: ordinals have the
pattern of their keys (`samePattern_ordinals`), and masking entries keeps patterns the same
(`SamePattern.mask`).
-/

namespace ColumnFlow.Rows

variable {α β γ : Type}

/-- Equal entries stand at the same places. -/
structure SamePattern (as : List α) (bs : List β) : Prop where
  length_eq : as.length = bs.length
  getElem?_eq_iff : ∀ i j : Nat, as[i]? = as[j]? ↔ bs[i]? = bs[j]?

namespace SamePattern

theorem symm {as : List α} {bs : List β} (h : SamePattern as bs) : SamePattern bs as :=
  ⟨h.length_eq.symm, fun i j => (h.getElem?_eq_iff i j).symm⟩

theorem trans {as : List α} {bs : List β} {cs : List γ} (h : SamePattern as bs)
    (h' : SamePattern bs cs) : SamePattern as cs :=
  ⟨h.length_eq.trans h'.length_eq,
    fun i j => (h.getElem?_eq_iff i j).trans (h'.getElem?_eq_iff i j)⟩

/-- Two images of one sequence, if both maps tell the same entries apart. -/
theorem of_map (as : List α) {f : α → β} {g : α → γ}
    (h : ∀ a ∈ as, ∀ b ∈ as, f a = f b ↔ g a = g b) : SamePattern (as.map f) (as.map g) := by
  refine ⟨by rw [List.length_map, List.length_map], fun i j => ?_⟩
  rw [List.getElem?_map, List.getElem?_map, List.getElem?_map, List.getElem?_map]
  cases hi : as[i]? with
  | none => cases as[j]? <;> simp
  | some a =>
    cases hj : as[j]? with
    | none => simp
    | some b => simpa using h a (List.mem_of_getElem? hi) b (List.mem_of_getElem? hj)

/-- An injective map keeps the pattern. -/
theorem map_right {f : α → β} (hf : ∀ a b, f a = f b → a = b) (as : List α) :
    SamePattern as (as.map f) := by
  have h := of_map as (f := id) (g := f) fun a _ b _ => ⟨fun e => congrArg f e, hf a b⟩
  rwa [List.map_id] at h

end SamePattern

/-- Of two sequences with the same pattern the same places are kept. -/
theorem SamePattern.mask {as : List α} {bs : List β} (h : SamePattern as bs)
    (present : List Bool) : SamePattern (mask as present) (mask bs present) := by
  refine ⟨by rw [length_mask, length_mask, h.length_eq], fun i j => ?_⟩
  have hij := h.getElem?_eq_iff i j
  rw [getElem?_mask, getElem?_mask, getElem?_mask, getElem?_mask]
  -- a place beyond the end of one sequence is beyond the end of the other
  have hnone : ∀ k : Nat, as[k]? = none → bs[k]? = none := by
    intro k hk
    rw [List.getElem?_eq_none_iff] at hk ⊢
    rwa [← h.length_eq]
  have hsome : ∀ (k : Nat) (a : α), as[k]? = some a → ∃ b, bs[k]? = some b := by
    intro k a hk
    have hlt := (List.getElem?_eq_some_iff.1 hk).1
    exact ⟨_, List.getElem?_eq_getElem (h.length_eq ▸ hlt)⟩
  rcases hi : as[i]? with _ | a <;> rcases hj : as[j]? with _ | a'
  · rw [hnone i hi, hnone j hj]
    simp
  · obtain ⟨b', hb'⟩ := hsome j a' hj
    rw [hnone i hi, hb']
    cases present[j]? <;> simp
  · obtain ⟨b, hb⟩ := hsome i a hi
    rw [hb, hnone j hj]
    simp
  · obtain ⟨b, hb⟩ := hsome i a hi
    obtain ⟨b', hb'⟩ := hsome j a' hj
    rw [hi, hj, hb, hb', Option.some_inj, Option.some_inj] at hij
    rw [hb, hb']
    rcases present[i]? with _ | p <;> rcases present[j]? with _ | q <;>
      simp [keep_eq_keep_iff, hij]

/-! ## Distinct keys and their ordinals -/

variable [DecidableEq α]

/-- The keys without repetitions, behind those `seen` before, in the order of first appearance. -/
def distinctAfter (seen : List α) : List α → List α
  | [] => seen
  | key :: keys =>
    if key ∈ seen then distinctAfter seen keys else distinctAfter (seen ++ [key]) keys

/-- The keys without repetitions, in the order of first appearance. -/
def distinct (keys : List α) : List α := distinctAfter [] keys

/-- Keys seen before keep their places. -/
theorem exists_distinctAfter_eq (seen keys : List α) :
    ∃ more, distinctAfter seen keys = seen ++ more := by
  induction keys generalizing seen with
  | nil => exact ⟨[], (List.append_nil _).symm⟩
  | cons key keys ih =>
    rw [distinctAfter]
    split
    · exact ih seen
    · obtain ⟨more, h⟩ := ih (seen ++ [key])
      exact ⟨key :: more, by rw [h, List.append_assoc, List.singleton_append]⟩

theorem mem_distinctAfter {seen keys : List α} {a : α} :
    a ∈ distinctAfter seen keys ↔ a ∈ seen ∨ a ∈ keys := by
  -- for every accumulator: a key is in it already, or joins it
  induction keys generalizing seen with
  | nil => simp [distinctAfter]
  | cons key keys ih =>
    rw [distinctAfter]
    split
    · next hkey =>
      rw [ih, List.mem_cons]
      constructor
      · intro hmem
        rcases hmem with h | h
        · exact .inl h
        · exact .inr (.inr h)
      · intro hmem
        rcases hmem with h | rfl | h
        · exact .inl h
        · exact .inl hkey
        · exact .inr h
    · rw [ih, List.mem_append, List.mem_singleton, List.mem_cons, or_assoc]

@[simp] theorem mem_distinct {keys : List α} {a : α} : a ∈ distinct keys ↔ a ∈ keys := by
  simp [distinct, mem_distinctAfter]

theorem nodup_distinctAfter {seen : List α} (h : seen.Nodup) (keys : List α) :
    (distinctAfter seen keys).Nodup := by
  induction keys generalizing seen with
  | nil => exact h
  | cons key keys ih =>
    rw [distinctAfter]
    split
    · exact ih h
    · next hkey =>
      refine ih (List.nodup_append.2 ⟨h, List.nodup_singleton key, ?_⟩)
      intro a ha b hb hab
      rw [List.mem_singleton.1 hb] at hab
      exact hkey (hab ▸ ha)

theorem nodup_distinct (keys : List α) : (distinct keys).Nodup :=
  nodup_distinctAfter List.nodup_nil keys

/-- The ordinal of a key is its place among the distinct keys. -/
theorem ordinalsAfter_eq (seen keys : List α) :
    ordinalsAfter seen keys = keys.map (distinctAfter seen keys).idxOf := by
  induction keys generalizing seen with
  | nil => rfl
  | cons key keys ih =>
    rw [ordinalsAfter, distinctAfter, List.map_cons]
    split
    · next hkey =>
      obtain ⟨more, h⟩ := exists_distinctAfter_eq seen keys
      rw [ih, h, List.idxOf_append_of_mem hkey]
    · next hkey =>
      -- a new key takes the place behind those seen, and keeps it
      obtain ⟨more, h⟩ := exists_distinctAfter_eq (seen ++ [key]) keys
      rw [ih, h, List.append_assoc, List.idxOf_append_of_notMem hkey, List.singleton_append,
        List.idxOf_cons_self, Nat.add_zero]

theorem ordinals_eq (keys : List α) : ordinals keys = keys.map (distinct keys).idxOf :=
  ordinalsAfter_eq [] keys

/-- Ordinals are equal exactly where the keys are. -/
theorem samePattern_ordinals (keys : List α) : SamePattern (ordinals keys) keys := by
  have h := SamePattern.of_map keys (f := (distinct keys).idxOf) (g := id) fun a ha b _ =>
    List.idxOf_inj (mem_distinct.2 ha)
  rwa [List.map_id, ← ordinals_eq] at h

/-- There are no more ordinals than keys. -/
theorem lt_length_of_mem_ordinals {keys : List α} {n : Nat} (h : n ∈ ordinals keys) :
    n < keys.length := by
  rw [ordinals_eq] at h
  obtain ⟨key, hkey, rfl⟩ := List.mem_map.1 h
  have hlt : (distinct keys).idxOf key < (distinct keys).length :=
    List.idxOf_lt_length_of_mem (mem_distinct.2 hkey)
  have hle : (distinct keys).length ≤ keys.length :=
    (nodup_distinct keys).length_le_of_subset fun a ha => mem_distinct.1 ha
  exact Nat.lt_of_lt_of_le hlt hle

end ColumnFlow.Rows
