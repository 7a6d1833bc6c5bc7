import ColumnFlow.Proofs.Column.Grouping

/-!
# Numbers across columns

The number of a vertex packs its label and its id, and the number of a value that fits a word is
this word. Neither depends on the column, nor on how the column stores its rows, so these numbers
can be compared between columns (`Column.signatures_comparable`). All other rows are numbered within
their column only.
-/

namespace ColumnFlow

/-- The types whose values fit a word. -/
def ElemType.wordTypes : List ElemType :=
  [.bool, .int32, .int64, .uint64, .float64, .date, .day]

theorem ScalarType.ne_string_of_mem_wordTypes {t : ScalarType}
    (h : t.elemType ∈ ElemType.wordTypes) : t ≠ .string := by
  intro ht
  subst ht
  exact absurd h (by decide)

namespace Column

open Rows

variable {c d : Column}

/-- Both columns hold vertices, or values of one type that fit words and are never absent. -/
inductive Comparable : Column → Column → Prop where
  | vertices (c d : VertexColumn) : Comparable (vertex c) (vertex d)
  | values {c d : ValueColumn} (hword : c.elemType ∈ ElemType.wordTypes)
      (hsame : d.elemType = c.elemType) : Comparable (value c) (value d)

/-- Each of the three ways of storage numbers its rows by their vertices alone. -/
theorem exists_vertex (c : VertexColumn) {i : Nat} (hi : i < c.size) :
    ∃ v : Vertex, (vertex c).get i = .ok (.vertex v) ∧
      (vertex c).signatureAt i = .ok v.signature := by
  rw [← VertexColumn.length_vertices] at hi
  have hv := List.getElem?_eq_getElem hi
  refine ⟨c.vertices[i], map_eq_ok_iff.2 ⟨_, VertexColumn.get_eq_ok_iff.2 hv, rfl⟩, ?_⟩
  rw [signatureAt_eq_ok_iff rfl, VertexColumn.signatures_eq, List.getElem?_map, hv]
  rfl

/-- Cells of a type of words are numbered by their words. -/
theorem exists_word {c : ValueColumn} (h : c.elemType ∈ ElemType.wordTypes) :
    ∃ t : ScalarType, t ≠ .string ∧ t.elemType = c.elemType ∧ ∀ i < c.size, ∃ cell : t.Cell,
      (value c).get i = .ok (t.toValue cell) ∧ (value c).signatureAt i = .ok (t.word cell) := by
  obtain ⟨storage, arena⟩ := c
  cases storage with
  | scalars t cells =>
    have ht : t ≠ .string := ScalarType.ne_string_of_mem_wordTypes h
    refine ⟨t, ht, rfl, fun i hi => ?_⟩
    have hcell : cells[i]? = some cells[i] := List.getElem?_eq_getElem hi
    refine ⟨cells[i], ?_, ?_⟩
    · rw [get_eq_ok_iff]
      show (cells.map t.toValue)[i]? = _
      rw [List.getElem?_map, hcell]
      rfl
    · rw [signatureAt_eq_ok_iff rfl]
      show (t.signatures cells)[i]? = _
      rw [ScalarType.signatures_eq_map_word ht, List.getElem?_map, hcell]
      rfl
  | lists itemType cells => exact absurd (show ElemType.list ∈ ElemType.wordTypes from h) (by decide)

/-- Of two columns that can be compared, rows have the same number exactly if they hold the same,
and of two vertices the smaller one has the smaller number. -/
theorem signatures_comparable (h : Comparable c d) {i j : Nat} (hi : i < c.size)
    (hj : j < d.size) :
    ∃ m n v w, c.signatureAt i = .ok m ∧ d.signatureAt j = .ok n ∧
      c.get i = .ok v ∧ d.get j = .ok w ∧ m < wordCount ∧ n < wordCount ∧ (m = n ↔ v = w) ∧
      ∀ x y, v = .vertex x → w = .vertex y → (m < n ↔ compare x y = .lt) := by
  cases h with
  | vertices c d =>
    obtain ⟨x, hx, hm⟩ := exists_vertex c hi
    obtain ⟨y, hy, hn⟩ := exists_vertex d hj
    have hword : ∀ v : Vertex, v.signature < wordCount := fun v =>
      Nat.lt_trans v.signature_lt (by decide)
    have heq : x.signature = y.signature ↔ Value.vertex x = .vertex y := by
      rw [Value.vertex.injEq]
      exact ⟨Vertex.signature_inj, congrArg _⟩
    refine ⟨_, _, _, _, hm, hn, hx, hy, hword x, hword y, heq, fun x' y' hx' hy' => ?_⟩
    cases hx'
    cases hy'
    exact Vertex.signature_lt_iff
  | values hc hsame =>
    obtain ⟨t, ht, htype, hcells⟩ := exists_word hc
    obtain ⟨s, -, hstype, hcells'⟩ := exists_word (hsame ▸ hc)
    obtain rfl : s = t := Storage.elemType_inj (hstype.trans (hsame.trans htype.symm))
    obtain ⟨a, ha, hm⟩ := hcells i hi
    obtain ⟨b, hb, hn⟩ := hcells' j hj
    have heq : s.word a = s.word b ↔ s.toValue a = s.toValue b :=
      ⟨fun h => congrArg _ (ScalarType.word_inj ht h),
        fun h => congrArg _ (ScalarType.toValue_inj h)⟩
    refine ⟨_, _, _, _, hm, hn, ha, hb, s.word_lt a, s.word_lt b, heq, fun x y hx _ => ?_⟩
    -- no scalar is a vertex
    cases s <;> cases hx

/-- Vertices in runs against vertices of one label. -/
theorem signatures_comparable_runs :
    ∃ m n, (vertex (.segmented ⟨[⟨2, [7]⟩, ⟨1, [9, 4]⟩]⟩)).signatureAt 1 = .ok m ∧
      (vertex (.single ⟨1, [9, 10], true⟩)).signatureAt 0 = .ok n ∧ m = n ∧
      ∃ k, (vertex (.single ⟨1, [9, 10], true⟩)).signatureAt 1 = .ok k ∧ m < k := by
  have hcomparable := Comparable.vertices (.segmented ⟨[⟨2, [7]⟩, ⟨1, [9, 4]⟩]⟩)
    (.single ⟨1, [9, 10], true⟩)
  obtain ⟨m, n, v, w, hm, hn, hv, hw, -, -, heq, -⟩ :=
    signatures_comparable hcomparable (i := 1) (j := 0) (by decide) (by decide)
  obtain ⟨m', k, v', w', hm', hk, hv', hw', -, -, -, hlt⟩ :=
    signatures_comparable hcomparable (i := 1) (j := 1) (by decide) (by decide)
  cases hv
  cases hw
  cases hv'
  cases hw'
  cases hm.symm.trans hm'
  exact ⟨m, n, hm, hn, heq.2 rfl, k, hk, (hlt _ _ rfl rfl).2 (by decide)⟩

end Column

end ColumnFlow
