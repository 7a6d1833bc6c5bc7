import ColumnFlow.Proofs.Rows.Ordinal
import ColumnFlow.Proofs.Rows.Partition
import ColumnFlow.Proofs.Rows.Sequence

/-!
# Groups by a table

Rows are grouped with a hash table that holds the place of each key's group. A key that is new gets
the place behind all groups, and a group is opened there. It is always at a place that there is, and
the groups are the same as without a table (`collect_eq_groups`).
-/

namespace ColumnFlow.Rows

/-- Groups in the making: the place of each key's group, the first row of each group, and its
rows. -/
structure Collected where
  table : Std.HashMap Nat Nat
  firsts : List Nat
  groups : List (List Nat)

/-- One more row, which carries `key`. -/
def collectRow (s : Collected) (key row : Nat) : Except Fault Collected := do
  let next := s.groups.length
  let table := s.table.insertIfNew key next
  let place := table.getD key next
  let opened : Collected :=
    if place = next then ⟨table, s.firsts ++ [row], s.groups ++ [[]]⟩ else { s with table }
  let group ← fetch opened.groups place
  return { opened with groups := opened.groups.set place (group ++ [row]) }

/-- The first rows and the groups of the rows that carry `keys`. -/
def collect (keys : List Nat) : Except Fault (List Nat × List (List Nat)) := do
  let s ← keys.zipIdx.foldlM (fun s entry => collectRow s entry.1 entry.2) ⟨∅, [], []⟩
  return (s.firsts, s.groups)

variable {s : Collected} {gs : List Group} {key row : Nat}

/-! ## Places of groups -/

/-- A row goes to the group that stands at the place of its key. -/
theorem addRow_of_getElem? {g : Group} (row : Nat)
    (h : gs[(gs.map Group.key).idxOf key]? = some g) :
    addRow key row gs
      = gs.set ((gs.map Group.key).idxOf key) { g with rest := g.rest ++ [row] } := by
  induction gs with
  | nil => cases h
  | cons old gs ih =>
    rw [addRow]
    rw [List.map_cons] at h ⊢
    by_cases hkey : old.key = key
    · subst hkey
      rw [List.idxOf_cons_self] at h ⊢
      cases h
      rw [if_pos rfl]
      rfl
    · rw [List.idxOf_cons_ne _ hkey] at h ⊢
      rw [if_neg hkey, ih h]
      rfl

theorem addRow_of_notMem (h : key ∉ gs.map Group.key) :
    addRow key row gs = gs ++ [⟨key, row, []⟩] := by
  induction gs with
  | nil => rfl
  | cons old gs ih =>
    rw [List.map_cons, List.mem_cons, not_or] at h
    rw [addRow, if_neg (Ne.symm h.1), ih h.2]
    rfl

/-- What an entry tells does not change if another one that tells the same is put in its place. -/
theorem map_set_of_eq {α β : Type} {f : α → β} {xs : List α} {i : Nat} {x y : α}
    (h : xs[i]? = some x) (hf : f y = f x) : (xs.set i y).map f = xs.map f := by
  obtain ⟨hlt, rfl⟩ := List.getElem?_eq_some_iff.1 h
  have hlt' : i < (xs.map f).length := by rwa [List.length_map]
  rw [List.map_set, hf, ← List.getElem_map f (h := hlt'), List.set_getElem_self]

/-! ## Collecting -/

/-- The table holds the places of the groups, and the rest is what the groups say. -/
structure Collects (s : Collected) (gs : List Group) : Prop where
  holds : Holds s.table (gs.map Group.key)
  firsts_eq : s.firsts = gs.map Group.first
  groups_eq : s.groups = gs.map Group.rows

theorem Collects.next_eq (h : Collects s gs) : s.groups.length = s.table.size := by
  rw [h.groups_eq, h.holds.size_eq, List.length_map, List.length_map]

theorem collects_empty : Collects ⟨∅, [], []⟩ [] := ⟨.empty, rfl, rfl⟩

/-- A key that is held tells the place of its group, which is one that there is. -/
theorem Collects.collectRow_of_mem (h : Collects s gs) (hkey : key ∈ gs.map Group.key) (row : Nat) :
    ∃ out, collectRow s key row = .ok out ∧ Collects out (addRow key row gs) := by
  have htable := h.holds.insertIfNew_of_mem hkey s.groups.length
  have hplace := htable.getD_of_mem hkey s.groups.length
  obtain ⟨g, hg, -⟩ : ∃ g, gs[(gs.map Group.key).idxOf key]? = some g ∧ g.key = key := by
    have hkeyAt := List.getElem?_idxOf hkey
    rwa [List.getElem?_map, Option.map_eq_some_iff] at hkeyAt
  have hold : (gs.map Group.key).idxOf key ≠ s.groups.length := by
    have hlt := (List.getElem?_eq_some_iff.1 hg).1
    rw [h.groups_eq, List.length_map]
    exact Nat.ne_of_lt hlt
  have hfetch : fetch s.groups ((gs.map Group.key).idxOf key) = .ok g.rows := by
    rw [fetch_eq_ok_iff, h.groups_eq, List.getElem?_map, hg]
    rfl
  have hadd := addRow_of_getElem? row hg
  have hkeys : (addRow key row gs).map Group.key = gs.map Group.key := by
    rw [hadd]
    exact map_set_of_eq hg rfl
  have hfirsts : (addRow key row gs).map Group.first = gs.map Group.first := by
    rw [hadd]
    exact map_set_of_eq hg rfl
  refine ⟨_, by rw [collectRow, hplace, if_neg hold, hfetch]; rfl, ?_, ?_, ?_⟩
  · rw [hkeys]
    exact htable
  · rw [hfirsts]
    exact h.firsts_eq
  · rw [hadd, List.map_set, h.groups_eq]
    rfl

/-- A key that is new gets the place behind all groups, where its group is opened. -/
theorem Collects.collectRow_of_notMem (h : Collects s gs) (hkey : key ∉ gs.map Group.key)
    (row : Nat) : ∃ out, collectRow s key row = .ok out ∧ Collects out (addRow key row gs) := by
  have htable := h.holds.insertIfNew_of_notMem hkey
  rw [← h.next_eq] at htable
  have hplace : (s.table.insertIfNew key s.groups.length).getD key s.groups.length
      = s.groups.length := by
    rw [htable.getD_of_mem List.mem_concat_self, List.idxOf_append_of_notMem hkey,
      List.idxOf_cons_self, h.groups_eq, List.length_map, List.length_map]
    rfl
  have hfetch : fetch (s.groups ++ [[]]) s.groups.length = .ok [] := by
    rw [fetch_eq_ok_iff, List.getElem?_concat_length]
  refine ⟨_, by rw [collectRow, hplace, if_pos rfl, hfetch]; rfl, ?_, ?_, ?_⟩
  · rw [addRow_of_notMem hkey, List.map_append]
    exact htable
  · rw [addRow_of_notMem hkey, List.map_append, h.firsts_eq]
    rfl
  · rw [addRow_of_notMem hkey, List.map_append, List.set_append_right _ _ Nat.le.refl,
      Nat.sub_self, h.groups_eq]
    rfl

/-- One row is collected as it is added to the groups. -/
theorem Collects.collectRow (h : Collects s gs) (key row : Nat) :
    ∃ out, Rows.collectRow s key row = .ok out ∧ Collects out (addRow key row gs) := by
  by_cases hkey : key ∈ gs.map Group.key
  · exact h.collectRow_of_mem hkey row
  · exact h.collectRow_of_notMem hkey row

/-- All rows are. -/
theorem Collects.foldlM (h : Collects s gs) (entries : List (Nat × Nat)) :
    ∃ out, entries.foldlM (fun s entry => Rows.collectRow s entry.1 entry.2) s = .ok out ∧
      Collects out (entries.foldl (fun groups entry => addRow entry.1 entry.2 groups) gs) := by
  induction entries generalizing s gs with
  | nil => exact ⟨s, rfl, h⟩
  | cons entry entries ih =>
    obtain ⟨mid, hfirst, hmid⟩ := h.collectRow entry.1 entry.2
    obtain ⟨out, hrest, hout⟩ := ih hmid
    exact ⟨out, foldlM_cons_eq_ok_iff.2 ⟨mid, hfirst, hrest⟩, hout⟩

/-- A table makes the same groups, and no row goes to a group that there is not. -/
theorem collect_eq_groups (keys : List Nat) :
    collect keys = .ok ((groups keys).map Group.first, (groups keys).map Group.rows) := by
  obtain ⟨out, hout, hcollects⟩ := collects_empty.foldlM keys.zipIdx
  rw [collect, hout]
  show Except.ok (out.firsts, out.groups) = _
  rw [hcollects.firsts_eq, hcollects.groups_eq]
  rfl

end ColumnFlow.Rows
