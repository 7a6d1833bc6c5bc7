import ColumnFlow.Proofs.Rows.Ranking

/-!
# Selecting the best rows

Two other ways to the best rows. A stable sort by cells leaves rows with equal cells in the order of
their places, so it sorts by the order of rows (`best_eq_mergeSort`). A heap that is never larger
than the limit, and in which a better row takes the place of the worst, holds the best rows of those
that came, whatever the order they come in (`Held.perm`), and so comes to the same
(`best_of_held`).
-/

namespace ColumnFlow.Rows

variable {α : Type} {cmp : α → α → Ordering} {ascending : Bool}

/-! ## Stable sorting -/

/-- The first of two rows may stand before the second, as far as the cells go. -/
def cellLE (cmp : α → α → Ordering) (ascending : Bool) (a b : α × Nat) : Bool :=
  (directed cmp ascending a.1 b.1).isLE

section

variable [Std.TransCmp cmp]

theorem cellLE_trans (a b c : α × Nat) (hab : cellLE cmp ascending a b = true)
    (hbc : cellLE cmp ascending b c = true) : cellLE cmp ascending a c = true :=
  Std.TransCmp.isLE_trans hab hbc

theorem cellLE_total (a b : α × Nat) :
    (cellLE cmp ascending a b || cellLE cmp ascending b a) = true := by
  have hswap : directed cmp ascending b.1 a.1 = (directed cmp ascending a.1 b.1).swap :=
    Std.OrientedCmp.eq_swap
  rw [cellLE, cellLE, hswap]
  cases directed cmp ascending a.1 b.1 <;> rfl

/-- Rows that a stable sort may leave in this order stand in it. -/
theorem inFront_of_zipIdxLE {a b : α × Nat}
    (h : List.zipIdxLE (cellLE cmp ascending) (a, a.2) (b, b.2) = true) :
    InFront cmp ascending a b := by
  have hswap : directed cmp ascending b.1 a.1 = (directed cmp ascending a.1 b.1).swap :=
    Std.OrientedCmp.eq_swap
  simp only [List.zipIdxLE, cellLE, hswap] at h
  show ((directed cmp ascending a.1 b.1).then (compare a.2 b.2)).isLE = true
  cases hcells : directed cmp ascending a.1 b.1 with
  | lt => rfl
  | eq =>
    rw [hcells] at h
    simpa [Nat.isLE_compare] using h
  | gt => simp [hcells] at h

theorem pairwise_mergeSort_zipIdx (cells : List α) :
    (cells.zipIdx.mergeSort (cellLE cmp ascending)).Pairwise (InFront cmp ascending) := by
  -- the sort treats the rows as if they were numbered, and they are
  have hplace : ∀ p ∈ cells.zipIdx.zipIdx, p = (p.1, p.1.2) := by
    intro p hp
    have hrow := List.mem_zipIdx_iff_getElem?.1 hp
    rw [List.getElem?_zipIdx, Option.map_eq_some_iff] at hrow
    obtain ⟨cell, -, hcell⟩ := hrow
    have hnumber : p.2 = p.1.2 := by simpa using congrArg Prod.snd hcell
    exact Prod.ext rfl hnumber
  have hsorted : (cells.zipIdx.zipIdx.mergeSort (List.zipIdxLE (cellLE cmp ascending))).Pairwise
      fun p q => List.zipIdxLE (cellLE cmp ascending) p q = true :=
    List.pairwise_mergeSort (List.zipIdxLE_trans cellLE_trans) (List.zipIdxLE_total cellLE_total) _
  rw [← List.mergeSort_zipIdx, List.pairwise_map]
  refine hsorted.imp_of_mem fun {p q} hp hq hpq => ?_
  rw [hplace p (List.mem_mergeSort.1 hp), hplace q (List.mem_mergeSort.1 hq)] at hpq
  exact inFront_of_zipIdxLE hpq

/-- The best rows are the first ones of a stable sort. -/
theorem best_eq_mergeSort [Std.LawfulEqCmp cmp] (limit : Nat) (cells : List α) :
    best cmp ascending limit cells
      = ((cells.zipIdx.mergeSort (cellLE cmp ascending)).map (·.2)).take limit :=
  best_of_sorted (List.mergeSort_perm _ _) (pairwise_mergeSort_zipIdx cells) limit

end

/-! ## A bounded heap -/

/-- What a heap may hold, in any arrangement, after rows came to it. While there is room it takes
each of them. When it is full, a row takes the place of the worst one that it holds, if it is
better. -/
inductive Held (cmp : α → α → Ordering) (ascending : Bool) (limit : Nat) :
    List (α × Nat) → List (α × Nat) → Prop where
  | nil : Held cmp ascending limit [] []
  | push {rows heap heap' : List (α × Nat)} {row : α × Nat} (h : Held cmp ascending limit rows heap)
      (hroom : heap.length < limit) (hheap : heap'.Perm (row :: heap)) :
      Held cmp ascending limit (rows ++ [row]) heap'
  | replace {rows heap rest heap' : List (α × Nat)} {row worst : α × Nat}
      (h : Held cmp ascending limit rows heap) (hfull : limit ≤ heap.length)
      (hworst : heap.Perm (worst :: rest)) (hmax : ∀ r ∈ rest, InFront cmp ascending r worst)
      (hbetter : better cmp ascending row worst = true) (hheap : heap'.Perm (row :: rest)) :
      Held cmp ascending limit (rows ++ [row]) heap'
  | keep {rows heap rest heap' : List (α × Nat)} {row worst : α × Nat}
      (h : Held cmp ascending limit rows heap) (hfull : limit ≤ heap.length)
      (hworst : heap.Perm (worst :: rest)) (hmax : ∀ r ∈ rest, InFront cmp ascending r worst)
      (hbetter : ¬ better cmp ascending row worst = true) (hheap : heap'.Perm heap) :
      Held cmp ascending limit (rows ++ [row]) heap'

variable {limit : Nat} {rows heap rest : List (α × Nat)} {row worst : α × Nat}

/-- A heap that is not full yet holds all rows. -/
theorem insertRow_perm_of_room (hheap : heap.Perm ((ranked cmp ascending rows).take limit))
    (hroom : heap.length < limit) :
    (row :: heap).Perm ((insertRow cmp ascending row (ranked cmp ascending rows)).take limit) := by
  have hlen := hheap.length_eq
  rw [List.length_take] at hlen
  have hinsert : (insertRow cmp ascending row (ranked cmp ascending rows)).Perm _ :=
    insertRow_perm row _
  rw [List.take_of_length_le (by omega)] at hheap
  rw [List.take_of_length_le (by rw [hinsert.length_eq, List.length_cons]; omega)]
  exact (hheap.cons row).trans hinsert.symm

section

variable [Std.TransCmp cmp] [Std.LawfulEqCmp cmp]

/-- The rows of a full heap, sorted: the worst is the last. -/
theorem ranked_take_eq_concat (hheap : heap.Perm ((ranked cmp ascending rows).take limit))
    (hworst : heap.Perm (worst :: rest)) (hmax : ∀ r ∈ rest, InFront cmp ascending r worst) :
    (ranked cmp ascending rows).take limit = ranked cmp ascending rest ++ [worst] := by
  have hrest : (ranked cmp ascending rest).Perm rest := ranked_perm rest
  refine InFront.eq_of_perm ?_ ((ranked_sorted rows).sublist (List.take_sublist _ _)) ?_
  · refine (hheap.symm.trans hworst).trans ?_
    exact (hrest.symm.cons worst).trans (List.perm_append_singleton worst _).symm
  · refine List.pairwise_append.2 ⟨ranked_sorted rest, List.pairwise_singleton _ _, ?_⟩
    intro r hr w hw
    rw [List.mem_singleton.1 hw]
    exact hmax r (hrest.mem_iff.1 hr)

/-- A row that is better than the worst goes before it. -/
theorem insertRow_concat_of_better (hrows : rows.Pairwise (InFront cmp ascending))
    (hmax : ∀ r ∈ rows, InFront cmp ascending r worst)
    (hbetter : better cmp ascending row worst = true) :
    insertRow cmp ascending row (rows ++ [worst])
      = insertRow cmp ascending row rows ++ [worst] := by
  have hsorted : (rows ++ [worst]).Pairwise (InFront cmp ascending) := by
    refine List.pairwise_append.2 ⟨hrows, List.pairwise_singleton _ _, fun r hr w hw => ?_⟩
    rw [List.mem_singleton.1 hw]
    exact hmax r hr
  refine InFront.eq_of_perm ?_ (insertRow_sorted row hsorted) ?_
  · exact (insertRow_perm row _).trans ((insertRow_perm row rows).symm.append_right [worst])
  · refine List.pairwise_append.2
      ⟨insertRow_sorted row hrows, List.pairwise_singleton _ _, fun r hr w hw => ?_⟩
    rw [List.mem_singleton.1 hw]
    rcases List.mem_cons.1 ((insertRow_perm row rows).mem_iff.1 hr) with rfl | hr
    · exact inFront_of_better hbetter
    · exact hmax r hr

/-- A row that is not better than the worst goes behind all of them. -/
theorem insertRow_of_not_better (hrows : rows.Pairwise (InFront cmp ascending))
    (hmax : ∀ r ∈ rows, InFront cmp ascending r worst)
    (hbetter : ¬ better cmp ascending row worst = true) :
    insertRow cmp ascending row rows = rows ++ [row] := by
  refine InFront.eq_of_perm ?_ (insertRow_sorted row hrows) ?_
  · exact (insertRow_perm row rows).trans (List.perm_append_singleton row rows).symm
  · refine List.pairwise_append.2 ⟨hrows, List.pairwise_singleton _ _, fun r hr w hw => ?_⟩
    rw [List.mem_singleton.1 hw]
    exact (hmax r hr).trans (inFront_of_not_better hbetter)

/-- The heap holds the best rows of those that came. -/
theorem Held.perm (h : Held cmp ascending limit rows heap) :
    heap.Perm ((ranked cmp ascending rows).take limit) := by
  induction h with
  | nil => exact .of_eq List.take_nil.symm
  | push _ hroom hheap ih =>
    rw [ranked_concat]
    exact hheap.trans (insertRow_perm_of_room ih hroom)
  | @replace rows heap rest heap' row worst _ hfull hworst hmax hbetter hheap ih =>
    have hkept := ranked_take_eq_concat ih hworst hmax
    have hrest : (ranked cmp ascending rest).Perm rest := ranked_perm rest
    have hlen : heap.length = min limit (ranked cmp ascending rows).length := by
      rw [ih.length_eq, List.length_take]
    have hsize : (insertRow cmp ascending row (ranked cmp ascending rest)).length = limit := by
      rw [(insertRow_perm row _).length_eq, List.length_cons, hrest.length_eq]
      have hlen' := hworst.length_eq
      rw [List.length_cons] at hlen'
      omega
    rw [ranked_concat, ← take_insertRow_take, hkept,
      insertRow_concat_of_better (ranked_sorted rest) (fun r hr => hmax r (hrest.mem_iff.1 hr))
        hbetter, List.take_left' hsize]
    exact hheap.trans ((hrest.symm.cons row).trans (insertRow_perm row _).symm)
  | @keep rows heap rest heap' row worst _ hfull hworst hmax hbetter hheap ih =>
    have hsorted : ((ranked cmp ascending rows).take limit).Pairwise (InFront cmp ascending) :=
      (ranked_sorted rows).sublist (List.take_sublist _ _)
    have hsize : ((ranked cmp ascending rows).take limit).length = limit := by
      have hle := List.length_take_le limit (ranked cmp ascending rows)
      rw [← ih.length_eq] at hle ⊢
      omega
    have hfront : ∀ r ∈ (ranked cmp ascending rows).take limit, InFront cmp ascending r worst := by
      intro r hr
      rcases List.mem_cons.1 (hworst.mem_iff.1 (ih.mem_iff.2 hr)) with rfl | hr
      · exact Std.ReflCmp.isLE_rfl
      · exact hmax r hr
    rw [ranked_concat, ← take_insertRow_take, insertRow_of_not_better hsorted hfront hbetter,
      List.take_left' hsize]
    exact hheap.trans ih

/-- What the heap holds in the end, sorted, are the best rows. -/
theorem best_of_held {cells : List α} {sorted : List (α × Nat)}
    (h : Held cmp ascending limit cells.zipIdx heap) (hperm : sorted.Perm heap)
    (hsorted : sorted.Pairwise (InFront cmp ascending)) :
    sorted.map (·.2) = best cmp ascending limit cells := by
  have hbest : sorted = (ranked cmp ascending cells.zipIdx).take limit :=
    InFront.eq_of_perm (hperm.trans h.perm) hsorted
      ((ranked_sorted _).sublist (List.take_sublist _ _))
  rw [best_eq_take, hbest, List.map_take]

end

/-- Rows can come in any order and number: the heap always has a worst one when it is full. -/
theorem exists_held [Std.TransCmp cmp] (hlimit : 0 < limit) (rows : List (α × Nat)) :
    ∃ heap, Held cmp ascending limit rows heap := by
  induction rows using List.reverseRecOn with
  | nil => exact ⟨[], .nil⟩
  | append_singleton rows row ih =>
    obtain ⟨heap, h⟩ := ih
    by_cases hroom : heap.length < limit
    · exact ⟨row :: heap, .push h hroom (.refl _)⟩
    · have hsorted : (ranked cmp ascending heap).Pairwise (InFront cmp ascending) :=
        ranked_sorted heap
      have hranked : (ranked cmp ascending heap).Perm heap := ranked_perm heap
      rcases List.eq_nil_or_concat' (ranked cmp ascending heap) with hnil | ⟨rest, worst, hconcat⟩
      · rw [hnil] at hranked
        have hlen := hranked.length_eq
        rw [List.length_nil] at hlen
        omega
      rw [hconcat] at hsorted hranked
      have hworst : heap.Perm (worst :: rest) :=
        hranked.symm.trans (List.perm_append_singleton worst rest)
      have hmax : ∀ r ∈ rest, InFront cmp ascending r worst := fun r hr =>
        (List.pairwise_append.1 hsorted).2.2 r hr worst List.mem_cons_self
      by_cases hbetter : better cmp ascending row worst = true
      · exact ⟨_, .replace h (by omega) hworst hmax hbetter (.refl _)⟩
      · exact ⟨_, .keep h (by omega) hworst hmax hbetter (.refl _)⟩

end ColumnFlow.Rows
