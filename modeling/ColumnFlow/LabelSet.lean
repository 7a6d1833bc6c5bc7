import ColumnFlow.Graph

/-!
# Sets of labels

A set of labels is a word of 256 bits, one for each label. Two sets with the same labels are
therefore the same word, whatever order the labels came in.
-/

namespace ColumnFlow

/-- A set of labels: bit `l` says whether label `l` is in it. -/
structure LabelSet where
  bits : BitVec 256
  deriving DecidableEq

namespace LabelSet

/-- The set without labels. -/
def empty : LabelSet := ⟨0⟩

instance : Membership Label LabelSet where
  mem s l := s.bits.getLsbD l.toNat = true

instance (l : Label) (s : LabelSet) : Decidable (l ∈ s) :=
  inferInstanceAs (Decidable (s.bits.getLsbD l.toNat = true))

/-- The set with `l` added. -/
def insert (l : Label) (s : LabelSet) : LabelSet := ⟨s.bits ||| BitVec.twoPow 256 l.toNat⟩

/-- The labels in either set. -/
def union (s t : LabelSet) : LabelSet := ⟨s.bits ||| t.bits⟩

/-- The labels of a list. -/
def ofList (labels : List Label) : LabelSet := labels.foldr insert empty

/-- The labels in ascending order. -/
def toList (s : LabelSet) : List Label :=
  (List.range 256).filterMap fun n => if s.bits.getLsbD n then some (UInt8.ofNat n) else none

/-- The labels in ascending order, separated by commas. -/
def text (s : LabelSet) : String := ", ".intercalate (s.toList.map fun l => toString l.toNat)

theorem mem_def {l : Label} {s : LabelSet} : l ∈ s ↔ s.bits.getLsbD l.toNat = true := Iff.rfl

@[simp] theorem not_mem_empty (l : Label) : l ∉ empty := by
  simp [mem_def, empty]

@[simp] theorem mem_insert {l k : Label} {s : LabelSet} : l ∈ s.insert k ↔ l = k ∨ l ∈ s := by
  have hl := l.toNat_lt
  simp only [mem_def, insert, BitVec.getLsbD_or, BitVec.getLsbD_twoPow, Bool.or_eq_true,
    Bool.and_eq_true, decide_eq_true_eq]
  constructor
  · rintro (h | ⟨_, h⟩)
    · exact .inr h
    · exact .inl (UInt8.toNat_inj.1 h.symm)
  · rintro (rfl | h)
    · exact .inr ⟨by omega, rfl⟩
    · exact .inl h

@[simp] theorem mem_union {l : Label} {s t : LabelSet} : l ∈ s.union t ↔ l ∈ s ∨ l ∈ t := by
  simp [mem_def, union]

@[simp] theorem mem_ofList {l : Label} {labels : List Label} : l ∈ ofList labels ↔ l ∈ labels := by
  induction labels with
  | nil => simp [ofList]
  | cons k labels ih => simpa [ofList] using or_congr Iff.rfl ih

/-- Sets with the same labels are equal. -/
theorem ext {s t : LabelSet} (h : ∀ l, l ∈ s ↔ l ∈ t) : s = t := by
  obtain ⟨s⟩ := s
  obtain ⟨t⟩ := t
  congr 1
  apply BitVec.eq_of_getLsbD_eq
  intro i hi
  have := h (UInt8.ofNat i)
  rw [mem_def, mem_def, UInt8.toNat_ofNat', Nat.mod_eq_of_lt (by omega)] at this
  exact Bool.eq_iff_iff.2 this

@[simp] theorem union_self (s : LabelSet) : s.union s = s := ext fun l => by simp

theorem union_assoc (s t u : LabelSet) : (s.union t).union u = s.union (t.union u) :=
  ext fun l => by simp [or_assoc]

end LabelSet

end ColumnFlow
