import ColumnFlow.Proofs.Rows.Pattern
import ColumnFlow.Value.Basic
import Mathlib.Data.Finset.Card

/-!
# Ordinals count first appearances

The ordinal of a key is the number of keys that appeared before it did, each counted once. It makes
no difference how the keys are looked up: a hash table that gives each new key its own size as the
number makes the same ordinals (`number_eq_ordinals`). Main statement, for values of all types:
equal values have one ordinal, different ones have different ordinals, and there are no gaps
(`ordinals_enumerate`).
-/

namespace ColumnFlow.Rows

variable {α : Type} [DecidableEq α] {key : α} {keys : List α}

/-! ## Keys in the order of first appearance -/

theorem distinctAfter_append (seen before after : List α) :
    distinctAfter seen (before ++ after) = distinctAfter (distinctAfter seen before) after := by
  induction before generalizing seen with
  | nil => rfl
  | cons key before ih =>
    rw [List.cons_append, distinctAfter, distinctAfter]
    split
    · exact ih seen
    · exact ih (seen ++ [key])

/-- A key stands behind those that appeared before it. -/
theorem idxOf_distinct (h : key ∈ keys) :
    (distinct keys).idxOf key = (distinct (keys.take (keys.idxOf key))).length := by
  obtain ⟨before, after, rfl, hnew⟩ := List.eq_append_cons_of_mem h
  have hplace : (before ++ key :: after).idxOf key = before.length := by
    rw [List.idxOf_append_of_notMem hnew, List.idxOf_cons_self, Nat.add_zero]
  have hnew' : key ∉ distinctAfter [] before := by
    rw [← distinct, mem_distinct]
    exact hnew
  obtain ⟨more, hmore⟩ := exists_distinctAfter_eq (distinctAfter [] before ++ [key]) after
  rw [hplace, List.take_left, distinct, distinctAfter_append, distinctAfter, if_neg hnew', hmore,
    List.append_assoc, List.idxOf_append_of_notMem hnew', List.singleton_append,
    List.idxOf_cons_self, Nat.add_zero, distinct]

theorem length_distinct (keys : List α) : (distinct keys).length = keys.toFinset.card := by
  rw [← List.toFinset_card_of_nodup (nodup_distinct keys)]
  congr 1
  ext key
  rw [List.mem_toFinset, List.mem_toFinset, mem_distinct]

/-- The keys that first appear before a key are those in front of it. -/
theorem filter_idxOf_lt (keys : List α) (key : α) :
    {k ∈ keys.toFinset | keys.idxOf k < keys.idxOf key}
      = (keys.take (keys.idxOf key)).toFinset := by
  ext k
  rw [Finset.mem_filter, List.mem_toFinset, List.mem_toFinset]
  constructor
  · intro hk
    exact (List.mem_take_iff_idxOf_lt hk.1).2 hk.2
  · intro hk
    have hmem := List.mem_of_mem_take hk
    exact ⟨hmem, (List.mem_take_iff_idxOf_lt hmem).1 hk⟩

/-- The ordinal of a key is the number of keys that appeared before it. -/
theorem idxOf_distinct_eq_card (h : key ∈ keys) :
    (distinct keys).idxOf key
      = {k ∈ keys.toFinset | keys.idxOf k < keys.idxOf key}.card := by
  rw [idxOf_distinct h, length_distinct, filter_idxOf_lt]

theorem mem_ordinals_iff {n : Nat} : n ∈ ordinals keys ↔ n < keys.toFinset.card := by
  rw [ordinals_eq, List.mem_map, ← length_distinct]
  constructor
  · rintro ⟨key, hkey, rfl⟩
    exact List.idxOf_lt_length_of_mem (mem_distinct.2 hkey)
  · intro hn
    exact ⟨(distinct keys)[n], mem_distinct.1 (List.getElem_mem hn),
      (nodup_distinct keys).idxOf_getElem n hn⟩

/-! ## Numbering by a hash table -/

variable [Hashable α]

/-- The numbers of keys by a table that holds the numbers given so far. A new key is given the size
that the table had before. -/
def number (table : Std.HashMap α Nat) : List α → List Nat
  | [] => []
  | key :: keys =>
    let next := table.size
    let table := table.insertIfNew key next
    table.getD key next :: number table keys

/-- The table holds the keys `seen`, each with its place. -/
structure Holds (table : Std.HashMap α Nat) (seen : List α) : Prop where
  size_eq : table.size = seen.length
  getElem?_eq : ∀ key, table[key]? = if key ∈ seen then some (seen.idxOf key) else none

namespace Holds

variable {table : Std.HashMap α Nat} {seen : List α}

theorem empty : Holds (∅ : Std.HashMap α Nat) [] where
  size_eq := Std.HashMap.size_empty
  getElem?_eq := fun key => by simp

theorem mem_iff (h : Holds table seen) (key : α) : key ∈ table ↔ key ∈ seen := by
  rw [Std.HashMap.mem_iff_isSome_getElem?, h.getElem?_eq]
  split <;> simp [*]

/-- A key that is held tells its place, whatever is told for others. -/
theorem getD_of_mem (h : Holds table seen) (hkey : key ∈ seen) (n : Nat) :
    table.getD key n = seen.idxOf key := by
  rw [Std.HashMap.getD_eq_getD_getElem?, h.getElem?_eq, if_pos hkey, Option.getD_some]

/-- A key that is held already stays as it is. -/
theorem insertIfNew_of_mem (h : Holds table seen) (hkey : key ∈ seen) (n : Nat) :
    Holds (table.insertIfNew key n) seen := by
  have hmem := (h.mem_iff key).2 hkey
  refine ⟨?_, fun k => ?_⟩
  · rw [Std.HashMap.size_insertIfNew, if_pos hmem, h.size_eq]
  · rw [Std.HashMap.getElem?_insertIfNew, if_neg fun hnew => hnew.2 hmem, h.getElem?_eq]

/-- A new key takes the next place. -/
theorem insertIfNew_of_notMem (h : Holds table seen) (hkey : key ∉ seen) :
    Holds (table.insertIfNew key table.size) (seen ++ [key]) := by
  have hnot : key ∉ table := fun hmem => hkey ((h.mem_iff key).1 hmem)
  refine ⟨?_, fun k => ?_⟩
  · rw [Std.HashMap.size_insertIfNew, if_neg hnot, h.size_eq, List.length_append,
      List.length_singleton]
  · rw [Std.HashMap.getElem?_insertIfNew]
    by_cases hk : key = k
    · subst hk
      simp [hnot, h.size_eq, List.idxOf_append_of_notMem hkey]
    · rw [if_neg fun hnew => hk (beq_iff_eq.1 hnew.1), h.getElem?_eq]
      by_cases hmem : k ∈ seen
      · simp [hmem, List.idxOf_append_of_mem hmem]
      · simp [hmem, Ne.symm hk]

theorem number_eq (h : Holds table seen) (keys : List α) :
    number table keys = ordinalsAfter seen keys := by
  induction keys generalizing table seen with
  | nil => rfl
  | cons key keys ih =>
    rw [number, ordinalsAfter]
    by_cases hkey : key ∈ seen
    · have hnext := h.insertIfNew_of_mem hkey table.size
      rw [ih hnext, hnext.getD_of_mem hkey, if_pos hkey]
    · have hnext := h.insertIfNew_of_notMem hkey
      rw [ih hnext, hnext.getD_of_mem List.mem_concat_self, if_neg hkey,
        List.idxOf_append_of_notMem hkey, List.idxOf_cons_self]
      rfl

end Holds

/-- It makes no difference how keys are hashed. -/
theorem number_eq_ordinals (keys : List α) : number ∅ keys = ordinals keys :=
  Holds.empty.number_eq keys

/-! ## Values -/

/-- Values of any types are numbered without gaps in the order of their first appearance, by tables
of any hash function. The ordinal of a value is the number of values that first appear before it
does, each counted once, and so two ordinals are equal exactly if the values are. -/
theorem ordinals_enumerate [Hashable Value] (values : List Value) :
    number ∅ values = ordinals values ∧ (ordinals values).length = values.length ∧
      (∀ (i : Nat) v, values[i]? = some v → (ordinals values)[i]?
        = some {w ∈ values.toFinset | values.idxOf w < values.idxOf v}.card) ∧
      (∀ (i j : Nat) v w, values[i]? = some v → values[j]? = some w →
        ((ordinals values)[i]? = (ordinals values)[j]? ↔ Value.beq v w = true)) ∧
      ∀ n, n ∈ ordinals values ↔ n < values.toFinset.card := by
  have hpattern := samePattern_ordinals values
  refine ⟨number_eq_ordinals values, hpattern.length_eq, fun i v hv => ?_,
    fun i j v w hv hw => ?_, fun n => mem_ordinals_iff⟩
  · rw [ordinals_eq, List.getElem?_map, hv, Option.map_some,
      idxOf_distinct_eq_card (List.mem_of_getElem? hv)]
  · rw [hpattern.getElem?_eq_iff, hv, hw, Option.some_inj, Value.beq_iff_eq]

/-- The two zeros, and lists of two item types. -/
def zerosAndLists : List Value :=
  [.float64 ⟨0⟩, .list .int32 [.int32 1, .null], .float64 ⟨0x8000000000000000⟩,
    .list .int32 [.int32 1, .null], .list .int64 [], .float64 ⟨0⟩]

theorem ordinals_enumerate_zerosAndLists :
    (ordinals zerosAndLists)[1]? = (ordinals zerosAndLists)[3]? ∧
      (ordinals zerosAndLists)[0]? ≠ (ordinals zerosAndLists)[2]? ∧
      (ordinals zerosAndLists)[4]? = some 3 := by
  obtain ⟨-, -, hcount, hequal, -⟩ := @ordinals_enumerate ⟨fun _ => 0⟩ zerosAndLists
  refine ⟨(hequal 1 3 _ _ rfl rfl).2 (by decide), fun h => ?_, ?_⟩
  · exact absurd ((hequal 0 2 _ _ rfl rfl).1 h) (by decide)
  · rw [hcount 4 _ rfl]
    decide

end ColumnFlow.Rows
