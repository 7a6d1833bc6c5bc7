import ColumnFlow.Proofs.Column.RowSemantics
import ColumnFlow.Proofs.Rows.GroupTable

/-!
# Equal rows and their groups

Signatures tell rows apart exactly (`Column.signature_exact`), so grouping by signatures divides the
rows into groups of equal rows, and the keys that are gathered from the first rows stand for their
groups (`Column.group_exact`). A column that collects its groups with a hash table of their places
makes the same (`Column.group_eq_collect`).
-/

namespace ColumnFlow.Column

open Rows

variable {c keys : Column}

/-! ## Signatures -/

theorem signatureAt_eq_ok_iff {numbers : List Nat} (h : c.signatures = .ok numbers) {i n : Nat} :
    c.signatureAt i = .ok n ↔ numbers[i]? = some n := by
  rw [signatureAt, h]
  exact fetch_eq_ok_iff

/-- Every row has a signature, a word, and two rows have the same one exactly if they are equal. -/
theorem signature_exact (hc : c.WellMade) :
    ∃ numbers, c.signatures = .ok numbers ∧ numbers.length = c.size ∧
      (c.size ≤ wordCount → ∀ n ∈ numbers, n < wordCount) ∧
      ∀ i < c.size, ∀ j < c.size, ∃ m n, c.signatureAt i = .ok m ∧ c.signatureAt j = .ok n ∧
        (m = n ↔ c.SameRow i c j) := by
  obtain ⟨numbers, hnumbers, hpattern⟩ := exists_signatures hc.aligned hc.marked
  have hlen : numbers.length = c.size := hpattern.length_eq.trans (length_contents hc.aligned)
  refine ⟨numbers, hnumbers, hlen, ?_, fun i hi j hj => ?_⟩
  · intro hsize n hn
    exact lt_wordCount_of_mem_signatures hc.aligned hsize hnumbers hn
  · have him : numbers[i]? = some numbers[i] := List.getElem?_eq_getElem (hlen.symm ▸ hi)
    have hjn : numbers[j]? = some numbers[j] := List.getElem?_eq_getElem (hlen.symm ▸ hj)
    refine ⟨_, _, (signatureAt_eq_ok_iff hnumbers).2 him, (signatureAt_eq_ok_iff hnumbers).2 hjn, ?_⟩
    rw [sameRow_iff hc.aligned hc.aligned hi hj, ← hpattern.getElem?_eq_iff i j, him, hjn,
      Option.some_inj]

/-- An absent row and an empty text, which is what the absent row stores. -/
def textSample : Column :=
  (Builder.value ⟨.scalars .string ["", "", "b"], some (Bitmap.ofList [false, true, true]),
    ArenaBuilder.empty⟩).finish 0 none

theorem wellMade_textSample : textSample.WellMade := by
  have hnew : Builder.ofType .string true
      = .ok (.value (ValueBuilder.ofStorage (.scalars .string []) true)) := rfl
  have hb : (Builder.value (ValueBuilder.ofStorage (.scalars .string []) true)).Reachable
      fun v => v.isReserved = false := .fresh (Builder.fresh_of_ofType hnew)
  exact .finish (((hb.pushNull rfl).pushValue (v := .string "") rfl rfl).pushValue
    (v := .string "b") rfl rfl) 0 none

theorem signature_exact_textSample :
    ∃ m n, textSample.signatureAt 0 = .ok m ∧ textSample.signatureAt 1 = .ok n ∧ m ≠ n := by
  obtain ⟨-, -, -, -, h⟩ := signature_exact wellMade_textSample
  obtain ⟨m, n, hm, hn, hmn⟩ := h 0 (by decide) 1 (by decide)
  refine ⟨m, n, hm, hn, ?_⟩
  rw [ne_eq, hmn]
  -- the first row is absent, the second is not
  intro hsame
  rcases hsame with ⟨-, h⟩ | ⟨h, -⟩ <;> cases h

/-! ## Groups -/

/-- The rows of a column in groups: `firsts` are the rows that equal no earlier row, and each of them
opens a group of which it is the first row and which has a key of its own. -/
structure Grouping (c : Column) (firsts : List Nat) (keys : Column) (groups : List (List Nat)) :
    Prop where
  firsts_ascending : firsts.Pairwise (· < ·)
  mem_firsts : ∀ i, i ∈ firsts ↔ i < c.size ∧ ∀ j < i, ¬ c.SameRow j c i
  size_keys : keys.size = firsts.length
  length_groups : groups.length = firsts.length
  existsUnique_group : ∀ i < c.size, ∃! k : Nat, ∃ g, groups[k]? = some g ∧ i ∈ g
  group_ascending : ∀ g ∈ groups, g.Pairwise (· < ·)
  head_group : ∀ (k : Nat) (g : List Nat), groups[k]? = some g → g.head? = firsts[k]?
  mem_group : ∀ (k : Nat) (g : List Nat), groups[k]? = some g →
    ∀ i, i ∈ g ↔ i < c.size ∧ c.SameRow i keys k
  keys_distinct : ∀ j < keys.size, ∀ k < keys.size, keys.SameRow j keys k → j = k

/-- Keys gathered from the first rows of a partition make it a grouping of the column. -/
theorem grouping_of_partition (hc : c.Aligned) {firsts : List Nat} {groups : List (List Nat)}
    (hp : Partition c.contents firsts groups) (hg : Gathered c firsts keys) :
    Grouping c firsts keys groups := by
  have hkeys : keys.contents = firsts.map c.rowAt := hg.eq_map hc
  have hsize : keys.size = firsts.length := by
    rw [← length_contents hg.aligned, hkeys, List.length_map]
  have hfirst : ∀ f ∈ firsts, f < c.size := by
    intro f hf
    have hlt := ((hp.mem_firsts f).1 hf).1
    rwa [length_contents hc] at hlt
  -- key `k` is the first row of group `k`
  have hkey : ∀ (k f : Nat), firsts[k]? = some f → keys.contents[k]? = c.contents[f]? := by
    intro k f hf
    rw [hkeys, List.getElem?_map, hf, getElem?_contents hc (hfirst f (List.mem_of_getElem? hf))]
    rfl
  have hplace : ∀ k < keys.size, ∃ f, firsts[k]? = some f := by
    intro k hk
    exact ⟨_, List.getElem?_eq_getElem (hsize ▸ hk)⟩
  refine ⟨hp.firsts_ascending, fun i => ?_, hsize, hp.length_groups, ?_, hp.group_ascending,
    hp.head_group, ?_, ?_⟩
  · rw [hp.mem_firsts i, length_contents hc]
    refine and_congr_right fun hi => forall_congr' fun j => imp_congr_right fun hj => ?_
    rw [sameRow_iff hc hc (Nat.lt_trans hj hi) hi]
  · intro i hi
    exact hp.existsUnique_group i ((length_contents hc).symm ▸ hi)
  · intro k g hgk i
    have hk : k < keys.size := by
      have hlt := (List.getElem?_eq_some_iff.1 hgk).1
      rwa [hsize, ← hp.length_groups]
    obtain ⟨f, hf⟩ := hplace k hk
    rw [hp.mem_group k g f hgk hf i, length_contents hc]
    apply and_congr_right
    intro hi
    rw [sameRow_iff hc hg.aligned hi hk, hkey k f hf]
  · intro j hj k hk hsame
    obtain ⟨f, hf⟩ := hplace j hj
    obtain ⟨f', hf'⟩ := hplace k hk
    rw [sameRow_iff hg.aligned hg.aligned hj hk, hkey j f hf, hkey k f' hf'] at hsame
    -- of two equal first rows neither stands before the other
    have hmem := (hp.mem_firsts f).1 (List.mem_of_getElem? hf)
    have hmem' := (hp.mem_firsts f').1 (List.mem_of_getElem? hf')
    have hff' : f = f' := by
      rcases Nat.lt_trichotomy f f' with hlt | heq | hgt
      · exact absurd hsame (hmem'.2 f hlt)
      · exact heq
      · exact absurd hsame.symm (hmem.2 f' hgt)
    have hnodup : firsts.Nodup := hp.firsts_ascending.imp fun h => Nat.ne_of_lt h
    refine (List.getElem?_inj (hsize ▸ hj) hnodup).1 ?_
    rw [hf, hf', hff']

/-- A table of the places of groups makes the same keys and groups. -/
theorem group_eq_collect (c : Column) :
    c.group = do
      let collected ← collect (← c.signatures)
      return (← c.gather collected.1, collected.2) := by
  rw [group]
  cases c.signatures with
  | error fault => rfl
  | ok numbers =>
    show _ = collect numbers >>= _
    rw [collect_eq_groups]
    rfl

/-- Deduplication and grouping succeed, and what they make is a grouping of the rows. -/
theorem group_exact (hc : c.WellMade) :
    ∃ firsts keys groups, c.firstRows = .ok firsts ∧ c.group = .ok (keys, groups) ∧
      Grouping c firsts keys groups := by
  obtain ⟨numbers, hnumbers, hpattern⟩ := exists_signatures hc.aligned hc.marked
  have hp := partition_of_samePattern hpattern
  have hfirsts : (Rows.groups numbers).map Group.first = Rows.firstRows numbers :=
    (grouped_groups numbers).firsts_eq
  have hrange : InRange c.size (Rows.firstRows numbers) := by
    intro f hf
    have hlt := ((hp.mem_firsts f).1 hf).1
    rwa [length_contents hc.aligned] at hlt
  obtain ⟨keys, hkeys, hg⟩ := exists_gathered hc.aligned hrange
  refine ⟨_, keys, _, ?_, ?_, grouping_of_partition hc.aligned hp hg⟩
  · exact bind_eq_ok_iff.2 ⟨numbers, hnumbers, rfl⟩
  · refine bind_eq_ok_iff.2 ⟨numbers, hnumbers, bind_eq_ok_iff.2 ⟨keys, ?_, rfl⟩⟩
    rw [hfirsts]
    exact hkeys

theorem group_exact_repeated :
    ∃ repeated, textSample.gather [0, 1, 1, 0, 2] = .ok repeated ∧
      repeated.group = .ok (textSample, [[0, 3], [1, 2], [4]]) ∧
      ∀ i, i ∈ [1, 2] ↔ i < 5 ∧ repeated.SameRow i textSample 1 := by
  obtain ⟨repeated, hgather, hgroup⟩ : ∃ repeated, textSample.gather [0, 1, 1, 0, 2] = .ok repeated ∧
      repeated.group = .ok (textSample, [[0, 3], [1, 2], [4]]) := ⟨_, rfl, rfl⟩
  obtain ⟨firsts, keys, groups, -, hgroup', h⟩ := group_exact (wellMade_textSample.gather hgather)
  obtain ⟨rfl, rfl⟩ := Prod.mk.inj (Except.ok.inj (hgroup'.symm.trans hgroup))
  cases hgather
  exact ⟨_, rfl, hgroup, h.mem_group 1 [1, 2] rfl⟩

end ColumnFlow.Column
