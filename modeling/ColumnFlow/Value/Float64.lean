/-!
# 64-bit floats

A float is the 64-bit word that stores it: sign, exponent, fraction. Rows are told apart by their
words, so that a NaN equals itself and the two zeros differ. Two other relations are defined beside
it: the total order, which also ranks zeros and NaNs, and numeric equality, under which the zeros
are equal and no NaN equals anything.
-/

namespace ColumnFlow

/-- A 64-bit float, as its word. -/
structure Float64 where
  bits : UInt64
  deriving DecidableEq

namespace Float64

/-- The word of positive zero. -/
def zero : Float64 := ⟨0⟩

/-- The word that has only the sign bit. -/
def signBit : Nat := 0x8000000000000000

/-- Whether the sign bit is set. -/
def negative (x : Float64) : Bool := signBit ≤ x.bits.toNat

/-- Exponent and fraction as one number. It grows with the absolute value. -/
def magnitude (x : Float64) : Nat := x.bits.toNat % signBit

/-- The magnitude of the infinities. The magnitudes above it are those of NaNs. -/
def infinite : Nat := 0x7ff0000000000000

/-- Whether the word is that of a NaN. -/
def isNaN (x : Float64) : Bool := infinite < x.magnitude

/-- The place in the total order: negative NaNs, negative numbers, negative zero, zero, positive
numbers, positive NaNs. -/
def rank (x : Float64) : Int :=
  if x.negative then -1 - x.magnitude else x.magnitude

/-- Floats are ordered by rank. -/
instance : Ord Float64 where
  compare a b := compare a.rank b.rank

/-- Numeric equality. -/
def numEq (a b : Float64) : Bool :=
  !a.isNaN && !b.isNaN && (a.bits == b.bits || (a.magnitude == 0 && b.magnitude == 0))

theorem negative_iff {x : Float64} : x.negative = true ↔ signBit ≤ x.bits.toNat := by
  simp [negative]

/-- The rank determines the word: the total order has no ties. -/
theorem rank_inj {a b : Float64} (h : a.rank = b.rank) : a = b := by
  obtain ⟨a⟩ := a
  obtain ⟨b⟩ := b
  have ha := a.toNat_lt
  have hb := b.toNat_lt
  congr 1
  apply UInt64.toNat_inj.1
  simp only [rank, negative_iff, magnitude, signBit] at h
  split at h <;> split at h <;> omega

end Float64

end ColumnFlow
