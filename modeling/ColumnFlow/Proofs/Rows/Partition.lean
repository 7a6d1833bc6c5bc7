import ColumnFlow.Proofs.Rows.Pattern
import ColumnFlow.Rows.Group
import Mathlib.Data.List.Induction

/-!
# The partition of rows into groups

Rows are grouped by the numbers that they carry. What comes out depends on the pattern of the
numbers alone, so it is the partition of any sequence with the same pattern
(`partition_of_samePattern`).
-/

namespace ColumnFlow.Rows

variable {α β : Type}

/-- The rows of a sequence, divided into groups of equal rows. The first row of each group is the
row that equals none before it, and the groups are in the order of these first rows. -/
structure Partition (rows : List α) (firsts : List Nat) (groups : List (List Nat)) : Prop where
  firsts_ascending : firsts.Pairwise (· < ·)
  mem_firsts : ∀ i, i ∈ firsts ↔ i < rows.length ∧ ∀ j < i, rows[j]? ≠ rows[i]?
  length_groups : groups.length = firsts.length
  head_group : ∀ (k : Nat) (g : List Nat), groups[k]? = some g → g.head? = firsts[k]?
  group_ascending : ∀ g ∈ groups, g.Pairwise (· < ·)
  mem_group : ∀ (k : Nat) (g : List Nat) (f : Nat), groups[k]? = some g → firsts[k]? = some f →
    ∀ i, i ∈ g ↔ i < rows.length ∧ rows[i]? = rows[f]?
  existsUnique_group : ∀ i < rows.length, ∃! k : Nat, ∃ g, groups[k]? = some g ∧ i ∈ g

/-- Only the pattern matters. -/
theorem Partition.congr {as : List α} {bs : List β} (h : SamePattern as bs) {firsts : List Nat}
    {groups : List (List Nat)} (hp : Partition as firsts groups) :
    Partition bs firsts groups where
  firsts_ascending := hp.firsts_ascending
  mem_firsts := fun i => by
    rw [hp.mem_firsts i, h.length_eq]
    exact and_congr_right fun _ => forall_congr' fun j =>
      imp_congr_right fun _ => not_congr (h.getElem?_eq_iff j i)
  length_groups := hp.length_groups
  head_group := hp.head_group
  group_ascending := hp.group_ascending
  mem_group := fun k g f hg hf i => by
    rw [hp.mem_group k g f hg hf i, h.length_eq, h.getElem?_eq_iff i f]
  existsUnique_group := fun i hi => hp.existsUnique_group i (h.length_eq ▸ hi)

/-! ## The rows that carry a key -/

/-- The rows that carry `key`, ascending. -/
def rowsWith (keys : List Nat) (key : Nat) : List Nat :=
  (List.range keys.length).filter fun i => keys[i]? = some key

theorem mem_rowsWith {keys : List Nat} {key i : Nat} :
    i ∈ rowsWith keys key ↔ keys[i]? = some key := by
  rw [rowsWith, List.mem_filter, List.mem_range, decide_eq_true_eq]
  exact and_iff_right_of_imp fun h => (List.getElem?_eq_some_iff.1 h).1

theorem rowsWith_ascending (keys : List Nat) (key : Nat) :
    (rowsWith keys key).Pairwise (· < ·) :=
  List.pairwise_lt_range.filter _

theorem rowsWith_concat (keys : List Nat) (last key : Nat) :
    rowsWith (keys ++ [last]) key
      = rowsWith keys key ++ if last = key then [keys.length] else [] := by
  rw [rowsWith, rowsWith, List.length_append, List.length_singleton, List.range_succ,
    List.filter_append]
  congr 1
  · apply List.filter_congr
    intro i hi
    rw [List.getElem?_append_left (List.mem_range.1 hi)]
  · by_cases h : last = key <;> simp [h]

/-! ## First rows -/

theorem firstRowsFrom_concat (row : Nat) (seen keys : List Nat) (last : Nat) :
    firstRowsFrom row seen (keys ++ [last])
      = firstRowsFrom row seen keys
        ++ if last ∈ seen ∨ last ∈ keys then [] else [row + keys.length] := by
  induction keys generalizing row seen with
  | nil =>
    by_cases h : last ∈ seen <;> simp [firstRowsFrom, h]
  | cons key keys ih =>
    rw [List.cons_append, firstRowsFrom, firstRowsFrom, List.length_cons,
      show row + (keys.length + 1) = row + 1 + keys.length by omega]
    split
    · next hkey =>
      rw [ih]
      congr 2
      rw [List.mem_cons]
      refine propext (or_congr_right' fun hlast => ?_)
      constructor
      · exact .inr
      · rintro (rfl | h)
        · exact absurd hkey hlast
        · exact h
    · rw [ih, List.cons_append]
      congr 3
      rw [List.mem_cons, List.mem_cons, or_assoc]
      exact propext or_left_comm

theorem firstRows_concat (keys : List Nat) (last : Nat) :
    firstRows (keys ++ [last])
      = firstRows keys ++ if last ∈ keys then [] else [keys.length] := by
  rw [firstRows, firstRows, firstRowsFrom_concat, Nat.zero_add]
  simp

theorem mem_firstRows {keys : List Nat} {i : Nat} :
    i ∈ firstRows keys ↔ i < keys.length ∧ ∀ j < i, keys[j]? ≠ keys[i]? := by
  induction keys using List.reverseRecOn with
  | nil => simp [firstRows, firstRowsFrom]
  | append_singleton keys last ih =>
    rw [firstRows_concat, List.mem_append, ih, List.length_append, List.length_singleton]
    rcases Nat.lt_trichotomy i keys.length with hlt | rfl | hgt
    · -- an earlier row: nothing changes up to it
      have hold : ∀ j ≤ i, (keys ++ [last])[j]? = keys[j]? := fun j hj =>
        List.getElem?_append_left (by omega)
      have hne : i ∉ (if last ∈ keys then [] else [keys.length] : List Nat) := by
        split <;> simp
        omega
      rw [or_iff_left hne]
      refine and_congr ⟨fun _ => by omega, fun _ => hlt⟩ (forall_congr' fun j => ?_)
      apply imp_congr_right
      intro hj
      rw [hold j (by omega), hold i (by omega)]
    · -- the new row: it is a first one if its key is new
      rw [or_iff_right fun h => Nat.lt_irrefl _ h.1, List.getElem?_concat_length]
      have hmem : last ∈ keys ↔ ∃ j < keys.length, (keys ++ [last])[j]? = some last := by
        rw [List.mem_iff_getElem?]
        constructor
        · intro hrow
          obtain ⟨j, hj⟩ := hrow
          have hlt := (List.getElem?_eq_some_iff.1 hj).1
          exact ⟨j, hlt, by rw [List.getElem?_append_left hlt, hj]⟩
        · intro hrow
          obtain ⟨j, hlt, hj⟩ := hrow
          exact ⟨j, by rwa [List.getElem?_append_left hlt] at hj⟩
      by_cases h : last ∈ keys
      · obtain ⟨j, hlt, hj⟩ := hmem.1 h
        simp only [h, if_true, List.not_mem_nil, false_iff, not_and, not_forall]
        exact fun _ => ⟨j, hlt, not_not_intro hj⟩
      · simp only [h, if_false, List.mem_singleton, true_iff]
        exact ⟨Nat.lt_succ_self _, fun j hlt hj => h (hmem.2 ⟨j, hlt, hj⟩)⟩
    · -- there is no such row
      have hne : i ∉ (if last ∈ keys then [] else [keys.length] : List Nat) := by
        split <;> simp
        omega
      rw [or_iff_left hne]
      exact iff_of_false (fun h => by omega) fun h => by omega

theorem firstRows_ascending (keys : List Nat) : (firstRows keys).Pairwise (· < ·) := by
  induction keys using List.reverseRecOn with
  | nil => exact List.Pairwise.nil
  | append_singleton keys last ih =>
    rw [firstRows_concat]
    refine List.pairwise_append.2 ⟨ih, ?_, fun i hi j hj => ?_⟩
    · split
      · exact List.Pairwise.nil
      · exact List.pairwise_singleton _ _
    · have hlt := (mem_firstRows.1 hi).1
      split at hj
      · exact absurd hj List.not_mem_nil
      · rwa [List.mem_singleton.1 hj]

/-! ## Groups -/

/-- A group with `row` added if it carries the key of the group. -/
def Group.extend (key row : Nat) (g : Group) : Group :=
  if g.key = key then { g with rest := g.rest ++ [row] } else g

@[simp] theorem Group.key_extend (key row : Nat) (g : Group) :
    (g.extend key row).key = g.key := by
  unfold Group.extend
  split <;> rfl

@[simp] theorem Group.first_extend (key row : Nat) (g : Group) :
    (g.extend key row).first = g.first := by
  unfold Group.extend
  split <;> rfl

theorem Group.rows_extend (key row : Nat) (g : Group) :
    (g.extend key row).rows = g.rows ++ if key = g.key then [row] else [] := by
  unfold Group.extend
  by_cases h : g.key = key
  · rw [if_pos h, if_pos h.symm]
    rfl
  · rw [if_neg h, if_neg fun h' => h h'.symm, List.append_nil]

theorem map_extend_of_notMem {key row : Nat} {gs : List Group} (h : key ∉ gs.map Group.key) :
    gs.map (Group.extend key row) = gs := by
  have hid : ∀ g ∈ gs, Group.extend key row g = g := by
    intro g hg
    have hne : g.key ≠ key := fun he => h (he ▸ List.mem_map_of_mem hg)
    rw [Group.extend, if_neg hne]
  rw [List.map_congr_left hid, List.map_id']

/-- The one group of the row's key grows, or a new one stands at the end. -/
theorem addRow_eq {key row : Nat} {gs : List Group} (h : (gs.map Group.key).Nodup) :
    addRow key row gs
      = gs.map (Group.extend key row)
        ++ if key ∈ gs.map Group.key then [] else [⟨key, row, []⟩] := by
  induction gs with
  | nil => rfl
  | cons g gs ih =>
    rw [List.map_cons, List.nodup_cons] at h
    rw [addRow, List.map_cons, List.map_cons]
    by_cases hkey : g.key = key
    · rw [if_pos hkey, if_pos (List.mem_cons.2 (.inl hkey.symm)), List.append_nil, Group.extend,
        if_pos hkey, map_extend_of_notMem (hkey ▸ h.1)]
    · have hmem : key ∈ g.key :: gs.map Group.key ↔ key ∈ gs.map Group.key := by
        rw [List.mem_cons]
        exact or_iff_right fun he => hkey he.symm
      rw [if_neg hkey, ih h.2, Group.extend, if_neg hkey, List.cons_append]
      simp only [hmem]

/-- What the groups are after the rows that carry `keys`. -/
structure Grouped (keys : List Nat) (gs : List Group) : Prop where
  nodup : (gs.map Group.key).Nodup
  mem_key : ∀ k, k ∈ gs.map Group.key ↔ k ∈ keys
  rows_eq : ∀ g ∈ gs, g.rows = rowsWith keys g.key
  firsts_eq : gs.map Group.first = firstRows keys

/-- One row keeps the groups right. -/
theorem Grouped.addRow {keys : List Nat} {gs : List Group} (h : Grouped keys gs) (last : Nat) :
    Grouped (keys ++ [last]) (addRow last keys.length gs) := by
  have hkeys : (gs.map (Group.extend last keys.length)).map Group.key = gs.map Group.key := by
    simp [Function.comp_def]
  have hfirsts : (gs.map (Group.extend last keys.length)).map Group.first = gs.map Group.first := by
    simp [Function.comp_def]
  have hextend : ∀ g ∈ gs, (g.extend last keys.length).rows = rowsWith (keys ++ [last]) g.key := by
    intro g hg
    rw [Group.rows_extend, rowsWith_concat, h.rows_eq g hg]
  rw [addRow_eq h.nodup]
  by_cases hlast : last ∈ keys
  · have hmem : last ∈ gs.map Group.key := (h.mem_key last).2 hlast
    rw [if_pos hmem, List.append_nil]
    refine ⟨hkeys ▸ h.nodup, fun k => ?_, fun g hg => ?_, ?_⟩
    · rw [hkeys, h.mem_key, List.mem_append, List.mem_singleton]
      exact ⟨.inl, fun hk => hk.elim id fun e => e ▸ hlast⟩
    · obtain ⟨old, hold, rfl⟩ := List.mem_map.1 hg
      rw [hextend old hold, Group.key_extend]
    · rw [hfirsts, h.firsts_eq, firstRows_concat, if_pos hlast, List.append_nil]
  · have hmem : last ∉ gs.map Group.key := fun hm => hlast ((h.mem_key last).1 hm)
    rw [if_neg hmem]
    refine ⟨?_, fun k => ?_, fun g hg => ?_, ?_⟩
    · rw [List.map_append, hkeys]
      refine List.nodup_append.2 ⟨h.nodup, List.nodup_singleton _, ?_⟩
      intro a ha b hb hab
      rw [List.map_singleton, List.mem_singleton] at hb
      rw [hab, hb] at ha
      exact hmem ha
    · rw [List.map_append, hkeys, List.mem_append, List.mem_append, h.mem_key]
      rfl
    · rcases List.mem_append.1 hg with hg | hg
      · obtain ⟨old, hold, rfl⟩ := List.mem_map.1 hg
        rw [hextend old hold, Group.key_extend]
      · -- the new group has the new row, and no earlier row carries its key
        rw [List.mem_singleton.1 hg, rowsWith_concat, if_pos rfl]
        have hnil : rowsWith keys last = [] := by
          refine List.eq_nil_iff_forall_not_mem.2 fun i hi => hlast ?_
          exact List.mem_of_getElem? (mem_rowsWith.1 hi)
        rw [hnil]
        rfl
    · rw [List.map_append, hfirsts, h.firsts_eq, firstRows_concat, if_neg hlast]
      rfl

theorem groups_concat (keys : List Nat) (last : Nat) :
    groups (keys ++ [last]) = addRow last keys.length (groups keys) := by
  rw [groups, groups, List.zipIdx_append, List.foldl_append, Nat.zero_add]
  rfl

/-- All rows keep the groups right. -/
theorem grouped_groups (keys : List Nat) : Grouped keys (groups keys) := by
  induction keys using List.reverseRecOn with
  | nil => exact ⟨List.nodup_nil, fun _ => Iff.rfl, fun _ h => absurd h List.not_mem_nil, rfl⟩
  | append_singleton keys last ih =>
    rw [groups_concat]
    exact ih.addRow last

theorem partition_groups (keys : List Nat) :
    Partition keys (firstRows keys) ((groups keys).map Group.rows) := by
  have h := grouped_groups keys
  -- a group by its place, and the first row in that place
  have hplace : ∀ (k : Nat) (rows : List Nat), ((groups keys).map Group.rows)[k]? = some rows →
      ∃ g, (groups keys)[k]? = some g ∧ g ∈ groups keys ∧ rows = g.rows ∧
        (firstRows keys)[k]? = some g.first := by
    intro k rows hk
    rw [List.getElem?_map, Option.map_eq_some_iff] at hk
    obtain ⟨g, hg, rfl⟩ := hk
    exact ⟨g, hg, List.mem_of_getElem? hg, rfl, by rw [← h.firsts_eq, List.getElem?_map, hg]; rfl⟩
  have hfirst : ∀ g ∈ groups keys, keys[g.first]? = some g.key := by
    intro g hg
    rw [← mem_rowsWith, ← h.rows_eq g hg]
    exact List.mem_cons_self
  refine ⟨firstRows_ascending keys, fun i => mem_firstRows, ?_, ?_, ?_, ?_, ?_⟩
  · rw [List.length_map, ← h.firsts_eq, List.length_map]
  · intro k rows hk
    obtain ⟨g, -, -, rfl, hf⟩ := hplace k rows hk
    exact hf.symm
  · intro rows hrows
    obtain ⟨g, hg, rfl⟩ := List.mem_map.1 hrows
    rw [h.rows_eq g hg]
    exact rowsWith_ascending keys g.key
  · intro k rows f hk hf i
    obtain ⟨g, -, hg, rfl, hf'⟩ := hplace k rows hk
    rw [hf] at hf'
    rw [h.rows_eq g hg, mem_rowsWith, Option.some.inj hf', hfirst g hg]
    exact ⟨fun hi => ⟨(List.getElem?_eq_some_iff.1 hi).1, hi⟩, And.right⟩
  · intro i hi
    -- the group of the row is the one of its key, and keys of groups are distinct
    have hrow : keys[i]? = some keys[i] := List.getElem?_eq_getElem hi
    have hkey : keys[i] ∈ (groups keys).map Group.key := (h.mem_key _).2 (List.getElem_mem hi)
    obtain ⟨k, hk, hkk⟩ := List.mem_iff_getElem.1 hkey
    have hplacek : ((groups keys).map Group.key)[k]? = some keys[i] := by
      rw [List.getElem?_eq_getElem hk, hkk]
    obtain ⟨g, hg, hgk⟩ := Option.map_eq_some_iff.1 (List.getElem?_map.symm.trans hplacek)
    refine ⟨k, ⟨g.rows, by rw [List.getElem?_map, hg]; rfl, ?_⟩, ?_⟩
    · rw [h.rows_eq g (List.mem_of_getElem? hg), mem_rowsWith, hrow, hgk]
    · intro l ⟨rows, hl, hil⟩
      obtain ⟨g', hg', hmem, rfl, -⟩ := hplace l rows hl
      rw [h.rows_eq g' hmem, mem_rowsWith] at hil
      refine ((List.getElem?_inj hk h.nodup).1 ?_).symm
      rw [hplacek, List.getElem?_map, hg', ← hrow, hil]
      rfl

/-- Grouping by numbers partitions every sequence with the pattern of the numbers. -/
theorem partition_of_samePattern {keys : List Nat} {rows : List α} (h : SamePattern keys rows) :
    Partition rows (firstRows keys) ((groups keys).map Group.rows) :=
  (partition_groups keys).congr h

end ColumnFlow.Rows
