import ColumnFlow.Proofs.Rows.Partition
import ColumnFlow.Rows.Ranking
import Mathlib.Data.List.Nodup
import Mathlib.Data.List.Perm.Basic
import Mathlib.Data.List.Sort

/-!
# The ranking of rows

The order of rows has no ties: rows with equal cells stand in the order of their places, whatever
the direction. So there is one ranking only, and whatever is sorted by the order and has all rows is
what the insertion of row after row comes to (`best_of_sorted`). Groups of equal rows, sorted by
their cells in either direction, are such a ranking (`best_of_partition`).
-/

namespace ColumnFlow.Rows

variable {α : Type} {cmp : α → α → Ordering} {ascending : Bool}

/-! ## The order of rows -/

/-- The order of cells in a direction. -/
def directed (cmp : α → α → Ordering) (ascending : Bool) (a b : α) : Ordering :=
  if ascending then cmp a b else cmp b a

instance [Std.TransCmp cmp] : Std.TransCmp (directed cmp ascending) := by
  cases ascending
  · exact inferInstanceAs (Std.TransCmp fun a b => cmp b a)
  · exact inferInstanceAs (Std.TransCmp cmp)

instance [Std.LawfulEqCmp cmp] : Std.LawfulEqCmp (directed cmp ascending) where
  compare_self := by
    intro a
    have hself : cmp a a = .eq := Std.ReflCmp.compare_self
    cases ascending <;> exact hself
  eq_of_compare := by
    intro a b h
    cases ascending
    · have hcells : cmp b a = .eq := h
      exact (Std.LawfulEqCmp.eq_of_compare hcells).symm
    · have hcells : cmp a b = .eq := h
      exact Std.LawfulEqCmp.eq_of_compare hcells

/-- The order of rows: by their cells, and by their places if these are equal. -/
def rowOrder (cmp : α → α → Ordering) (ascending : Bool) : α × Nat → α × Nat → Ordering :=
  compareLex (fun a b => directed cmp ascending a.1 b.1) fun a b => compare a.2 b.2

/-- A row that stands in front of another, or is the same. -/
def InFront (cmp : α → α → Ordering) (ascending : Bool) (a b : α × Nat) : Prop :=
  (rowOrder cmp ascending a b).isLE

theorem better_eq (a b : α × Nat) : better cmp ascending a b = (rowOrder cmp ascending a b).isLT :=
  rfl

theorem inFront_of_better {a b : α × Nat} (h : better cmp ascending a b = true) :
    InFront cmp ascending a b := by
  rw [better_eq] at h
  rw [InFront]
  revert h
  cases rowOrder cmp ascending a b <;> decide

section

variable [Std.TransCmp cmp]

instance : Std.TransCmp (rowOrder cmp ascending) :=
  have : Std.TransCmp fun a b : α × Nat => directed cmp ascending a.1 b.1 :=
    { eq_swap := Std.OrientedCmp.eq_swap, isLE_trans := Std.TransCmp.isLE_trans }
  have : Std.TransCmp fun a b : α × Nat => compare a.2 b.2 :=
    { eq_swap := Std.OrientedCmp.eq_swap, isLE_trans := Std.TransCmp.isLE_trans }
  inferInstanceAs (Std.TransCmp (compareLex _ _))

theorem InFront.trans {a b c : α × Nat} (hab : InFront cmp ascending a b)
    (hbc : InFront cmp ascending b c) : InFront cmp ascending a c :=
  Std.TransCmp.isLE_trans hab hbc

theorem inFront_of_not_better {a b : α × Nat} (h : ¬ better cmp ascending a b = true) :
    InFront cmp ascending b a := by
  have hswap : rowOrder cmp ascending b a = (rowOrder cmp ascending a b).swap :=
    Std.OrientedCmp.eq_swap
  rw [better_eq] at h
  rw [InFront, hswap]
  revert h
  cases rowOrder cmp ascending a b <;> decide

/-- Two rows of which each is in front of the other are the same. -/
theorem InFront.antisymm [Std.LawfulEqCmp cmp] {a b : α × Nat} (hab : InFront cmp ascending a b)
    (hba : InFront cmp ascending b a) : a = b := by
  have heq : rowOrder cmp ascending a b = .eq := Std.OrientedCmp.isLE_antisymm hab hba
  obtain ⟨hcells, hplaces⟩ := Ordering.then_eq_eq.1 heq
  exact Prod.ext (Std.LawfulEqCmp.eq_of_compare hcells) (Std.LawfulEqCmp.eq_of_compare hplaces)

/-- There is one way to sort rows. -/
theorem InFront.eq_of_perm [Std.LawfulEqCmp cmp] {rows rows' : List (α × Nat)}
    (hperm : rows.Perm rows') (h : rows.Pairwise (InFront cmp ascending))
    (h' : rows'.Pairwise (InFront cmp ascending)) : rows = rows' :=
  hperm.eq_of_pairwise (fun _ _ _ _ => InFront.antisymm) h h'

end

/-! ## Insertion -/

theorem insertRow_perm (row : α × Nat) (rows : List (α × Nat)) :
    (insertRow cmp ascending row rows).Perm (row :: rows) := by
  induction rows with
  | nil => exact .refl _
  | cons kept rows ih =>
    rw [insertRow]
    split
    · exact .refl _
    · exact (ih.cons kept).trans (.swap row kept rows)

theorem insertRow_sorted [Std.TransCmp cmp] (row : α × Nat) {rows : List (α × Nat)}
    (h : rows.Pairwise (InFront cmp ascending)) :
    (insertRow cmp ascending row rows).Pairwise (InFront cmp ascending) := by
  induction rows with
  | nil => exact List.pairwise_singleton _ _
  | cons kept rows ih =>
    obtain ⟨hkept, hrows⟩ := List.pairwise_cons.1 h
    rw [insertRow]
    split
    · next hbetter =>
      have hfront := inFront_of_better hbetter
      refine List.pairwise_cons.2 ⟨fun r hr => ?_, h⟩
      rcases List.mem_cons.1 hr with rfl | hr
      · exact hfront
      · exact hfront.trans (hkept r hr)
    · next hbetter =>
      refine List.pairwise_cons.2 ⟨fun r hr => ?_, ih hrows⟩
      rcases List.mem_cons.1 ((insertRow_perm row rows).mem_iff.1 hr) with rfl | hr
      · exact inFront_of_not_better hbetter
      · exact hkept r hr

/-- Rows that are not kept have no place among those that are. -/
theorem take_insertRow_take (n : Nat) (row : α × Nat) (rows : List (α × Nat)) :
    (insertRow cmp ascending row (rows.take n)).take n
      = (insertRow cmp ascending row rows).take n := by
  induction rows generalizing n with
  | nil => rw [List.take_nil]
  | cons kept rows ih =>
    cases n with
    | zero => rfl
    | succ n =>
      rw [List.take_succ_cons, insertRow, insertRow]
      split
      · rw [List.take_succ_cons, List.take_succ_cons]
        cases n with
        | zero => rfl
        | succ n =>
          rw [List.take_succ_cons, List.take_succ_cons, List.take_take,
            Nat.min_eq_left (Nat.le_succ n)]
      · rw [List.take_succ_cons, List.take_succ_cons, ih]

/-- All rows, best first, each inserted among those before it. -/
def ranked (cmp : α → α → Ordering) (ascending : Bool) (rows : List (α × Nat)) : List (α × Nat) :=
  rows.foldl (fun kept row => insertRow cmp ascending row kept) []

theorem ranked_concat (rows : List (α × Nat)) (row : α × Nat) :
    ranked cmp ascending (rows ++ [row])
      = insertRow cmp ascending row (ranked cmp ascending rows) :=
  List.foldl_append ..

theorem ranked_perm (rows : List (α × Nat)) : (ranked cmp ascending rows).Perm rows := by
  induction rows using List.reverseRecOn with
  | nil => exact .refl _
  | append_singleton rows row ih =>
    rw [ranked_concat]
    refine ((insertRow_perm row _).trans (ih.cons row)).trans ?_
    exact (List.perm_append_singleton row rows).symm

theorem ranked_sorted [Std.TransCmp cmp] (rows : List (α × Nat)) :
    (ranked cmp ascending rows).Pairwise (InFront cmp ascending) := by
  induction rows using List.reverseRecOn with
  | nil => exact .nil
  | append_singleton rows row ih =>
    rw [ranked_concat]
    exact insertRow_sorted row ih

/-- The best rows are the first of all rows, though no more of them are ever kept. -/
theorem best_eq_take (limit : Nat) (cells : List α) :
    best cmp ascending limit cells
      = ((ranked cmp ascending cells.zipIdx).map (·.2)).take limit := by
  have hkept : ∀ rows : List (α × Nat),
      rows.foldl (fun kept row => (insertRow cmp ascending row kept).take limit) []
        = (ranked cmp ascending rows).take limit := by
    intro rows
    induction rows using List.reverseRecOn with
    | nil => exact List.take_nil.symm
    | append_singleton rows row ih =>
      rw [List.foldl_append, ih, ranked_concat]
      exact take_insertRow_take limit row _
  rw [best, hkept, List.map_take]

/-- A list of all rows that is sorted is the ranking. -/
theorem best_of_sorted [Std.TransCmp cmp] [Std.LawfulEqCmp cmp] {cells : List α}
    {rows : List (α × Nat)} (hperm : rows.Perm cells.zipIdx)
    (hsorted : rows.Pairwise (InFront cmp ascending)) (limit : Nat) :
    best cmp ascending limit cells = (rows.map (·.2)).take limit := by
  have hranked : ranked cmp ascending cells.zipIdx = rows :=
    InFront.eq_of_perm ((ranked_perm _).trans hperm.symm) (ranked_sorted _) hsorted
  rw [best_eq_take, hranked]

/-! ## Ties -/

/-- The rows of each cell, ascending, with the cell. -/
structure Ties (cells : List α) (ties : List (α × List Nat)) : Prop where
  mem_rows : ∀ tie ∈ ties, ∀ i, i ∈ tie.2 ↔ cells[i]? = some tie.1
  rows_ascending : ∀ tie ∈ ties, tie.2.Pairwise (· < ·)
  distinct : ties.Pairwise fun s t => s.1 ≠ t.1
  exists_tie : ∀ (i : Nat) (a : α), cells[i]? = some a → ∃ tie ∈ ties, tie.1 = a

/-- The rows of a tie, with their cells. -/
def tieRows (tie : α × List Nat) : List (α × Nat) := tie.2.map (tie.1, ·)

/-- The order of ties by their cells. -/
def tieLE (cmp : α → α → Ordering) (s t : α × List Nat) : Bool := (cmp s.1 t.1).isLE

theorem nodup_zipIdx (cells : List α) : cells.zipIdx.Nodup := by
  refine List.Nodup.of_map Prod.snd ?_
  rw [List.zipIdx_map_snd]
  exact List.nodup_range'

namespace Ties

variable {cells : List α} {ties ties' : List (α × List Nat)}

theorem perm (h : Ties cells ties) (hperm : ties'.Perm ties) : Ties cells ties' where
  mem_rows := fun tie htie => h.mem_rows tie (hperm.mem_iff.1 htie)
  rows_ascending := fun tie htie => h.rows_ascending tie (hperm.mem_iff.1 htie)
  distinct := hperm.symm.pairwise h.distinct fun hne => hne.symm
  exists_tie := fun i a ha => by
    obtain ⟨tie, htie, heq⟩ := h.exists_tie i a ha
    exact ⟨tie, hperm.mem_iff.2 htie, heq⟩

theorem mem_flatMap_tieRows (h : Ties cells ties) {row : α × Nat} :
    row ∈ ties.flatMap tieRows ↔ row ∈ cells.zipIdx := by
  rw [List.mem_flatMap, List.mem_zipIdx_iff_getElem?]
  constructor
  · intro hrow
    obtain ⟨tie, htie, hmem⟩ := hrow
    obtain ⟨i, hi, rfl⟩ := List.mem_map.1 hmem
    exact (h.mem_rows tie htie i).1 hi
  · intro hcell
    obtain ⟨tie, htie, heq⟩ := h.exists_tie _ _ hcell
    refine ⟨tie, htie, List.mem_map.2 ⟨row.2, (h.mem_rows tie htie _).2 ?_, by rw [heq]⟩⟩
    rw [hcell, heq]

theorem nodup_flatMap_tieRows (h : Ties cells ties) : (ties.flatMap tieRows).Nodup := by
  refine List.nodup_flatMap.2 ⟨fun tie htie => ?_, h.distinct.imp fun hne row hs ht => ?_⟩
  · refine List.Nodup.map (fun i j hij => congrArg Prod.snd hij) ?_
    exact (h.rows_ascending tie htie).imp Nat.ne_of_lt
  · obtain ⟨i, -, rfl⟩ := List.mem_map.1 hs
    obtain ⟨j, -, hj⟩ := List.mem_map.1 ht
    exact hne (congrArg Prod.fst hj).symm

/-- The rows of all ties are all rows. -/
theorem rows_perm (h : Ties cells ties) : (ties.flatMap tieRows).Perm cells.zipIdx :=
  (List.perm_ext_iff_of_nodup h.nodup_flatMap_tieRows (nodup_zipIdx cells)).2
    fun _ => h.mem_flatMap_tieRows

/-- Ties that stand in the order of their cells are sorted, row by row. -/
theorem rows_sorted [Std.LawfulEqCmp cmp] (h : Ties cells ties)
    (hsorted : ties.Pairwise fun s t => directed cmp ascending s.1 t.1 = .lt) :
    (ties.flatMap tieRows).Pairwise (InFront cmp ascending) := by
  refine List.pairwise_flatMap.2 ⟨fun tie htie => ?_, hsorted.imp fun hlt row hs row' ht => ?_⟩
  · refine List.pairwise_map.2 ((h.rows_ascending tie htie).imp fun {i j} hij => ?_)
    have hself : directed cmp ascending tie.1 tie.1 = .eq := Std.ReflCmp.compare_self
    have hplaces : compare i j = .lt := Nat.compare_eq_lt.2 hij
    simp [InFront, rowOrder, compareLex, hself, hplaces]
  · obtain ⟨i, -, rfl⟩ := List.mem_map.1 hs
    obtain ⟨j, -, rfl⟩ := List.mem_map.1 ht
    simp [InFront, rowOrder, compareLex, hlt]

/-- The ranking is the ties one after the other. -/
theorem best_eq [Std.TransCmp cmp] [Std.LawfulEqCmp cmp] (h : Ties cells ties)
    (hsorted : ties.Pairwise fun s t => directed cmp ascending s.1 t.1 = .lt) :
    best cmp ascending cells.length cells = (ties.map (·.2)).flatten := by
  have hrows : (ties.flatMap tieRows).map (·.2) = (ties.map (·.2)).flatten := by
    rw [List.map_flatMap, ← List.flatMap_def]
    refine List.flatMap_congr fun tie _ => ?_
    simp [tieRows]
  have hlen : ((ties.map (·.2)).flatten).length = cells.length := by
    rw [← hrows, List.length_map, h.rows_perm.length_eq, List.length_zipIdx]
  rw [best_of_sorted h.rows_perm (h.rows_sorted hsorted), hrows,
    List.take_of_length_le (Nat.le_of_eq hlen)]

/-- Ties can be put in the order of their cells. -/
theorem exists_sorted [Std.TransCmp cmp] [Std.LawfulEqCmp cmp] (h : Ties cells ties) :
    ∃ sorted : List (α × List Nat), sorted.Perm ties ∧
      sorted.Pairwise fun s t => cmp s.1 t.1 = .lt := by
  have hperm : (ties.mergeSort (tieLE cmp)).Perm ties := List.mergeSort_perm ties _
  have hle : (ties.mergeSort (tieLE cmp)).Pairwise fun s t => tieLE cmp s t = true := by
    refine List.pairwise_mergeSort (fun s t u => Std.TransCmp.isLE_trans) (fun s t => ?_) ties
    have hswap : cmp t.1 s.1 = (cmp s.1 t.1).swap := Std.OrientedCmp.eq_swap
    rw [tieLE, tieLE, hswap]
    cases cmp s.1 t.1 <;> rfl
  refine ⟨_, hperm, (hle.and (h.perm hperm).distinct).imp fun {s t} hst => ?_⟩
  obtain ⟨hle, hne⟩ := hst
  cases hcells : cmp s.1 t.1 with
  | lt => rfl
  | eq => exact absurd (Std.LawfulEqCmp.eq_of_compare hcells) hne
  | gt => simp [tieLE, hcells] at hle

end Ties

/-- What can be told of every group can be told of all of them. -/
theorem exists_map_snd_eq {β : Type} {P : α → β → Prop} {bs : List β} (h : ∀ b ∈ bs, ∃ a, P a b) :
    ∃ pairs : List (α × β), pairs.map (·.2) = bs ∧ ∀ p ∈ pairs, P p.1 p.2 := by
  induction bs with
  | nil => exact ⟨[], rfl, by simp⟩
  | cons b bs ih =>
    obtain ⟨⟨a, ha⟩, hbs⟩ := List.forall_mem_cons.1 h
    obtain ⟨pairs, hpairs, hall⟩ := ih hbs
    exact ⟨(a, b) :: pairs, by rw [List.map_cons, hpairs], List.forall_mem_cons.2 ⟨ha, hall⟩⟩

namespace Partition

variable {cells : List α} {firsts : List Nat} {groups : List (List Nat)}

/-- A group is made of the rows of one cell. -/
theorem exists_cell (hp : Partition cells firsts groups) {g : List Nat} (hg : g ∈ groups) :
    ∃ a, ∀ i, i ∈ g ↔ cells[i]? = some a := by
  obtain ⟨k, hk⟩ := List.mem_iff_getElem?.1 hg
  obtain ⟨f, hf⟩ : ∃ f, firsts[k]? = some f := by
    have hlt := (List.getElem?_eq_some_iff.1 hk).1
    exact ⟨_, List.getElem?_eq_getElem (hp.length_groups ▸ hlt)⟩
  have hlt := ((hp.mem_firsts f).1 (List.mem_of_getElem? hf)).1
  refine ⟨cells[f], fun i => ?_⟩
  rw [hp.mem_group k g f hk hf i, List.getElem?_eq_getElem hlt]
  exact and_iff_right_of_imp fun hi => (List.getElem?_eq_some_iff.1 hi).1

theorem ne_nil (hp : Partition cells firsts groups) {g : List Nat} (hg : g ∈ groups) : g ≠ [] := by
  rintro rfl
  obtain ⟨k, hk⟩ := List.mem_iff_getElem?.1 hg
  have hlt := (List.getElem?_eq_some_iff.1 hk).1
  rw [hp.length_groups] at hlt
  have hhead := hp.head_group k [] hk
  rw [List.getElem?_eq_getElem hlt] at hhead
  cases hhead

/-- The groups are the ties. -/
theorem exists_ties (hp : Partition cells firsts groups) :
    ∃ ties, ties.map (·.2) = groups ∧ Ties cells ties := by
  obtain ⟨ties, hties, hcells⟩ := exists_map_snd_eq fun g hg => hp.exists_cell hg
  have hmem : ∀ tie ∈ ties, tie.2 ∈ groups := fun tie htie => hties ▸ List.mem_map_of_mem htie
  refine ⟨ties, hties, hcells, fun tie htie => hp.group_ascending _ (hmem tie htie), ?_, ?_⟩
  · -- a row of two groups would be in two places
    rw [List.pairwise_iff_getElem]
    intro j k hj hk hjk heq
    have hplace : ∀ (n : Nat) (hn : n < ties.length), groups[n]? = some ties[n].2 := by
      intro n hn
      rw [← hties, List.getElem?_map, List.getElem?_eq_getElem hn]
      rfl
    obtain ⟨i, hi⟩ := List.exists_mem_of_ne_nil _ (hp.ne_nil (hmem _ (List.getElem_mem hj)))
    have hcell := (hcells _ (List.getElem_mem hj) i).1 hi
    have hi' := (hcells _ (List.getElem_mem hk) i).2 (heq ▸ hcell)
    have hlt := (List.getElem?_eq_some_iff.1 hcell).1
    exact Nat.ne_of_lt hjk ((hp.existsUnique_group i hlt).unique
      ⟨_, hplace j hj, hi⟩ ⟨_, hplace k hk, hi'⟩)
  · intro i a ha
    obtain ⟨k, g, hk, hi⟩ := (hp.existsUnique_group i (List.getElem?_eq_some_iff.1 ha).1).exists
    obtain ⟨tie, htie, rfl⟩ := List.mem_map.1 (hties ▸ List.mem_of_getElem? hk)
    exact ⟨tie, htie, Option.some.inj (((hcells tie htie i).1 hi).symm.trans ha)⟩

end Partition

/-- The ranking of all rows is the groups, in an order that the opposite direction reverses. The
rows of a group stay together, and in their order. -/
theorem best_of_partition [Std.TransCmp cmp] [Std.LawfulEqCmp cmp] {cells : List α}
    {firsts : List Nat} {groups : List (List Nat)} (hp : Partition cells firsts groups) :
    ∃ blocks : List (List Nat), blocks.Perm groups ∧
      best cmp true cells.length cells = blocks.flatten ∧
      best cmp false cells.length cells = blocks.reverse.flatten := by
  obtain ⟨ties, hgroups, hties⟩ := hp.exists_ties
  obtain ⟨sorted, hperm, hsorted⟩ : ∃ sorted : List (α × List Nat), sorted.Perm ties ∧
      sorted.Pairwise fun s t => cmp s.1 t.1 = .lt := hties.exists_sorted
  have hsame := hties.perm hperm
  have hforward : sorted.Pairwise fun s t => directed cmp true s.1 t.1 = .lt := hsorted
  have hbackward : sorted.reverse.Pairwise fun s t => directed cmp false s.1 t.1 = .lt :=
    List.pairwise_reverse.2 hsorted
  refine ⟨sorted.map (·.2), hgroups ▸ hperm.map _, hsame.best_eq hforward, ?_⟩
  rw [← List.map_reverse]
  exact (hsame.perm sorted.reverse_perm).best_eq hbackward

end ColumnFlow.Rows
