import ColumnFlow.Proofs.Bitmap.Presence
import ColumnFlow.Proofs.Rows.Sequence

/-!
# Bitmaps as lists of bits

A bitmap is made in one of four ways, and then bits are added to it and replaced. Each of these has
its counterpart on the list of the bits, which knows nothing of words. Main statement: whatever was
done to it, a bitmap represents the list to which the same was done, fails where the list has no
place, and equals another bitmap exactly if the lists are equal (`build_represents`).
-/

namespace ColumnFlow.Bitmap

open Rows

/-! ## Making and changing a bitmap -/

/-- A way to make a bitmap. -/
inductive Origin where
  | empty
  /-- No bits yet, and room for some. The room does not show. -/
  | withCapacity (capacity : Nat)
  | allTrue (len : Nat)
  | ofList (bits : List Bool)

/-- The bitmap as it is made. -/
def Origin.bitmap : Origin → Bitmap
  | empty | withCapacity _ => Bitmap.empty
  | allTrue len => Bitmap.allTrue len
  | ofList bits => Bitmap.ofList bits

/-- The bits that are meant. -/
def Origin.bits : Origin → List Bool
  | empty | withCapacity _ => []
  | allTrue len => List.replicate len true
  | ofList bits => bits

/-- A change of a bitmap. -/
inductive Change where
  | push (value : Bool)
  | set (index : Nat) (value : Bool)
  | extend (values : List Bool)

/-- What a change makes of a bitmap. -/
def Change.apply (b : Bitmap) : Change → Except Fault Bitmap
  | push value => .ok (b.push value)
  | set index value => b.set index value
  | extend values => .ok (b.extend values)

/-- What a change makes of a list of bits. Only bits that are there can be replaced. -/
def Change.applyBits (bits : List Bool) : Change → Except Fault (List Bool)
  | push value => .ok (bits ++ [value])
  | set index value =>
    if index < bits.length then .ok (bits.set index value)
    else .error (.bit bits.length index)
  | extend values => .ok (bits ++ values)

/-- The bitmap that is made and then changed. The first change that faults ends the run. -/
def build (origin : Origin) (changes : List Change) : Except Fault Bitmap :=
  changes.foldlM Change.apply origin.bitmap

/-- The list of bits of which the same is made. -/
def buildBits (origin : Origin) (changes : List Change) : Except Fault (List Bool) :=
  changes.foldlM Change.applyBits origin.bits

/-! ## What a bitmap shows of its bits -/

/-- A bitmap says of itself what `bits` say, and no word holds anything else. -/
structure Represents (b : Bitmap) (bits : List Bool) : Prop where
  len_eq : b.len = bits.length
  toList_eq : b.toList = bits
  get_eq_ok_iff : ∀ i v, b.get i = .ok v ↔ bits[i]? = some v
  get_eq_error_iff : ∀ i fault,
    b.get i = .error fault ↔ bits.length ≤ i ∧ fault = .bit bits.length i
  set_eq_error_iff : ∀ i v fault,
    b.set i v = .error fault ↔ bits.length ≤ i ∧ fault = .bit bits.length i
  size_words : b.words.size = (bits.length + 63) / 64
  /-- Bit `j` of word `w`, behind the last of the bits. -/
  testBit_word : ∀ (w : Nat) (hw : w < b.words.size) (j : Nat), j < 64 → bits.length ≤ 64 * w + j →
    b.words[w].toNat.testBit j = false

/-- Bits are read and replaced under one condition. -/
theorem ite_eq_error_iff {α : Type} {a : α} {len i : Nat} {fault : Fault} :
    (if i < len then Except.ok a else .error (.bit len i)) = .error fault
      ↔ len ≤ i ∧ fault = .bit len i := by
  by_cases hi : i < len
  · simp [hi, Nat.not_le_of_lt hi]
  · simp [hi, Nat.le_of_not_lt hi, eq_comm]

theorem WellFormed.represents {b : Bitmap} (h : b.WellFormed) : b.Represents b.toList where
  len_eq := (length_toList b).symm
  toList_eq := rfl
  get_eq_ok_iff := fun _ _ => Bitmap.get_eq_ok_iff
  get_eq_error_iff := fun i fault => by
    rw [length_toList]
    exact ite_eq_error_iff
  set_eq_error_iff := fun i v fault => by
    rw [length_toList]
    exact ite_eq_error_iff
  size_words := by rw [length_toList, h.size_words]
  testBit_word := fun w hw j hj hlen => by
    rw [length_toList] at hlen
    rw [Bitmap.testBit_word b hw hj, h.testBit_of_le _ hlen]

/-! ## One change -/

theorem Origin.wellFormed (origin : Origin) : origin.bitmap.WellFormed := by
  cases origin with
  | empty | withCapacity capacity => exact wellFormed_empty
  | allTrue len => exact wellFormed_allTrue len
  | ofList bits => exact wellFormed_ofList bits

theorem Origin.toList_bitmap (origin : Origin) : origin.bitmap.toList = origin.bits := by
  cases origin with
  | empty | withCapacity capacity => rfl
  | allTrue len => exact toList_allTrue len
  | ofList bits => exact toList_ofList bits

theorem WellFormed.apply {b b' : Bitmap} {change : Change} (hb : b.WellFormed)
    (h : change.apply b = .ok b') : b'.WellFormed := by
  cases change with
  | push v =>
    cases h
    exact hb.push v
  | set i v =>
    by_cases hi : i < b.len
    · obtain rfl : b.put i v = b' := by simpa [Change.apply, set, hi] using h
      exact hb.put hi v
    · simp [Change.apply, set, hi] at h
  | extend vs =>
    cases h
    exact hb.extend vs

/-- A change of the bitmap is that change of the list. -/
theorem WellFormed.map_toList_apply {b : Bitmap} (hb : b.WellFormed) (change : Change) :
    (change.apply b).map toList = change.applyBits b.toList := by
  cases change with
  | push v => exact congrArg Except.ok (hb.toList_push v)
  | set i v =>
    rw [Change.apply, Change.applyBits, set, length_toList]
    by_cases hi : i < b.len
    · rw [if_pos hi, if_pos hi]
      exact congrArg Except.ok (hb.toList_put hi v)
    · rw [if_neg hi, if_neg hi]
      rfl
  | extend vs => exact congrArg Except.ok (hb.toList_extend vs)

/-! ## All changes -/

theorem WellFormed.foldlM_apply {b b' : Bitmap} {changes : List Change} (hb : b.WellFormed)
    (h : changes.foldlM Change.apply b = .ok b') : b'.WellFormed :=
  foldlM_induction (P := fun _ b => b.WellFormed) hb (fun _ _ _ _ hmid h => hmid.apply h) h

theorem WellFormed.map_toList_foldlM {b : Bitmap} (hb : b.WellFormed) (changes : List Change) :
    (changes.foldlM Change.apply b).map toList = changes.foldlM Change.applyBits b.toList := by
  induction changes generalizing b with
  | nil => rfl
  | cons change changes ih =>
    have hfirst := hb.map_toList_apply change
    rw [List.foldlM_cons, List.foldlM_cons, ← hfirst]
    cases h : change.apply b with
    | error fault => rfl
    | ok b' => exact ih (hb.apply h)

theorem wellFormed_of_build {origin : Origin} {changes : List Change} {b : Bitmap}
    (h : build origin changes = .ok b) : b.WellFormed :=
  origin.wellFormed.foldlM_apply h

theorem map_toList_build (origin : Origin) (changes : List Change) :
    (build origin changes).map toList = buildBits origin changes := by
  rw [build, origin.wellFormed.map_toList_foldlM, origin.toList_bitmap]
  rfl

/-- A bitmap is made and changed with the same faults as its list of bits. If there are none, it
represents the list, and it equals another bitmap so made exactly if the two lists are equal. -/
theorem build_represents (origin : Origin) (changes : List Change) :
    (∀ fault, build origin changes = .error fault ↔ buildBits origin changes = .error fault) ∧
    ∀ b, build origin changes = .ok b →
      ∃ bits, buildBits origin changes = .ok bits ∧ b.Represents bits ∧
        ∀ origin' changes' b' bits', build origin' changes' = .ok b' →
          buildBits origin' changes' = .ok bits' → (b = b' ↔ bits = bits') := by
  have hbits := map_toList_build origin changes
  constructor
  · intro fault
    rw [← hbits]
    cases build origin changes <;> simp [Except.map]
  · intro b hb
    have hwf := wellFormed_of_build hb
    refine ⟨b.toList, by rw [← hbits, hb]; rfl, hwf.represents, ?_⟩
    intro origin' changes' b' bits' hb' hbits'
    have hwf' := wellFormed_of_build hb'
    obtain rfl : b'.toList = bits' := by
      rw [← map_toList_build, hb'] at hbits'
      exact Except.ok.inj hbits'
    constructor
    · intro heq
      rw [heq]
    · exact hwf.ext hwf'

/-- Bits in two words, made in two ways. -/
theorem build_represents_twoWords :
    ∃ b bits b', build (.allTrue 63) [.push false, .extend [true, false], .set 65 true, .set 0 false]
        = .ok b ∧
      build (.withCapacity 9) [.push false, .extend (List.replicate 62 true), .push false,
        .extend [true, true]] = .ok b' ∧
      b.Represents bits ∧ bits.length = 66 ∧ b = b' := by
  obtain ⟨b, hb⟩ : ∃ b, build (.allTrue 63) [.push false, .extend [true, false], .set 65 true,
      .set 0 false] = .ok b := ⟨_, rfl⟩
  obtain ⟨b', hb'⟩ : ∃ b', build (.withCapacity 9) [.push false,
      .extend (List.replicate 62 true), .push false, .extend [true, true]] = .ok b' := ⟨_, rfl⟩
  obtain ⟨bits, hbits, hrep, hequal⟩ := (build_represents _ _).2 b hb
  refine ⟨b, bits, b', hb, hb', hrep, ?_, (hequal _ _ b' bits hb' ?_).2 rfl⟩
  · cases hbits
    rfl
  · rw [← hbits]
    rfl

end ColumnFlow.Bitmap
