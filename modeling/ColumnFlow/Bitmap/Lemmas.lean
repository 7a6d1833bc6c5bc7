import ColumnFlow.Bitmap

/-!
# The bits of a bitmap

What each operation on a bitmap does to its list of bits. Main statements: a bitmap that is built
bit by bit is well formed, and its list is the list of the bits given (`toList_ofList`); well-formed
bitmaps of equal bits are equal, word for word (`WellFormed.ext`).
-/

namespace ColumnFlow.Bitmap

/-! ## One bit of a word -/

theorem toNat_mask (i : Nat) : (mask i).toNat = 1 <<< (i % 64) := by
  have h : i % 64 < 64 := Nat.mod_lt _ (by decide)
  have hp : 1 <<< (i % 64) < 2 ^ 64 := by
    rw [Nat.one_shiftLeft]
    exact Nat.pow_lt_pow_right (by decide) h
  simp only [mask, UInt64.toNat_shiftLeft, UInt64.toNat_one, Nat.toUInt64, UInt64.toNat_ofNat']
  rw [Nat.mod_eq_of_lt (a := i % 64 % 2 ^ 64) (by omega), Nat.mod_eq_of_lt (a := i % 64) (by omega),
    Nat.mod_eq_of_lt hp]

theorem testBit_mask (i j : Nat) : (mask i).toNat.testBit j = decide (i % 64 = j) := by
  rw [toNat_mask, Nat.one_shiftLeft, Nat.testBit_two_pow]

/-- A word meets a mask where the mask has its one. -/
theorem and_mask_bne (w : UInt64) (i : Nat) : (w &&& mask i != 0) = w.toNat.testBit (i % 64) := by
  rw [Bool.eq_iff_iff, bne_iff_ne, ne_eq, ← UInt64.toNat_inj, UInt64.toNat_and, toNat_mask,
    Nat.one_shiftLeft, UInt64.toNat_zero]
  cases hbit : w.toNat.testBit (i % 64)
  · refine iff_of_false (not_not_intro (Nat.eq_of_testBit_eq fun j => ?_)) Bool.false_ne_true
    rw [Nat.testBit_and, Nat.testBit_two_pow, Nat.zero_testBit]
    by_cases hj : i % 64 = j
    · simp [← hj, hbit]
    · simp [hj]
  · refine iff_of_true (fun h => ?_) rfl
    have := congrArg (·.testBit (i % 64)) h
    simp [Nat.testBit_and, hbit] at this

theorem testBit_eq (b : Bitmap) (i : Nat) :
    b.testBit i = (b.words.getD (i / 64) 0).toNat.testBit (i % 64) :=
  and_mask_bne _ _

theorem testBit_put (b : Bitmap) {i : Nat} (v : Bool) (hi : i / 64 < b.words.size) (j : Nat) :
    (b.put i v).testBit j = if j = i then v else b.testBit j := by
  rw [testBit_eq, testBit_eq]
  simp only [put, Array.getD_eq_getD_getElem?, Array.getElem?_modify]
  by_cases hw : i / 64 = j / 64
  · have hj : j / 64 < b.words.size := hw ▸ hi
    simp only [hw, ↓reduceIte, Array.getElem?_eq_getElem hj, Option.map_some, Option.getD_some]
    have hm : i % 64 = j % 64 ↔ j = i := by omega
    have hlt : j % 64 < 64 := by omega
    have hx : ∀ x : UInt64, (~~~x).toNat.testBit (j % 64) = !x.toNat.testBit (j % 64) := by
      intro x
      rw [← UInt64.toNat_toBitVec, ← UInt64.toNat_toBitVec, UInt64.toBitVec_not,
        BitVec.testBit_toNat, BitVec.testBit_toNat, BitVec.getLsbD_not]
      simp [hlt]
    cases v with
    | false =>
      simp only [Bool.false_eq_true, ↓reduceIte, UInt64.toNat_and, Nat.testBit_and, hx,
        testBit_mask, hm]
      by_cases h : j = i <;> simp [h]
    | true =>
      simp only [↓reduceIte, UInt64.toNat_or, Nat.testBit_or, testBit_mask, hm]
      by_cases h : j = i <;> simp [h]
  · have : j ≠ i := by rintro rfl; exact hw rfl
    simp [hw, this]

/-! ## The list of the bits -/

/-- There are just enough words for the bits, and the places behind the last bit are zero. -/
structure WellFormed (b : Bitmap) : Prop where
  size_words : b.words.size = (b.len + 63) / 64
  testBit_of_le : ∀ i, b.len ≤ i → b.testBit i = false

theorem wellFormed_empty : empty.WellFormed := ⟨rfl, fun i _ => by simp [testBit, empty]⟩

theorem size_words_put (b : Bitmap) (i : Nat) (v : Bool) :
    (b.put i v).words.size = b.words.size := by simp [put]

theorem getElem?_toList (b : Bitmap) (i : Nat) :
    b.toList[i]? = if i < b.len then some (b.testBit i) else none := by
  rw [toList, List.getElem?_map]
  split
  · next h => rw [List.getElem?_range h, Option.map_some]
  · next h => rw [List.getElem?_eq_none (by rw [List.length_range]; omega), Option.map_none]

theorem WellFormed.testBit_push {b : Bitmap} (h : b.WellFormed) (v : Bool) (j : Nat) :
    (b.push v).testBit j = if j = b.len then v else b.testBit j := by
  have hs := h.size_words
  rw [push, testBit_put]
  · split
    · rfl
    · rw [testBit_eq, testBit_eq]
      split
      · simp only [Array.getD_eq_getD_getElem?, Array.getElem?_push]
        split
        · next hj => rw [hj, Array.getElem?_eq_none (Nat.le_refl _)]; rfl
        · rfl
      · rfl
  · split
    · rw [Array.size_push]; show b.len / 64 < _; omega
    · show b.len / 64 < b.words.size; omega

theorem WellFormed.push {b : Bitmap} (h : b.WellFormed) (v : Bool) : (b.push v).WellFormed := by
  have hs := h.size_words
  refine ⟨?_, fun i hi => ?_⟩
  · rw [Bitmap.push, size_words_put]
    show (if _ then _ else _ : Array UInt64).size = (b.len + 1 + 63) / 64
    split
    · rw [Array.size_push]; omega
    · omega
  · have hi : b.len + 1 ≤ i := hi
    rw [h.testBit_push, if_neg (by omega)]
    exact h.testBit_of_le i (by omega)

@[simp] theorem len_push (b : Bitmap) (v : Bool) : (b.push v).len = b.len + 1 := rfl

theorem WellFormed.toList_push {b : Bitmap} (h : b.WellFormed) (v : Bool) :
    (b.push v).toList = b.toList ++ [v] := by
  rw [toList, len_push, List.range_succ, List.map_append, List.map_singleton, h.testBit_push,
    if_pos rfl, toList]
  congr 1
  refine List.map_congr_left fun i hi => ?_
  rw [h.testBit_push, if_neg (Nat.ne_of_lt (List.mem_range.1 hi))]

theorem WellFormed.extend {b : Bitmap} (h : b.WellFormed) (vs : List Bool) :
    (b.extend vs).WellFormed := by
  induction vs generalizing b with
  | nil => exact h
  | cons v vs ih => exact ih (h.push v)

theorem WellFormed.toList_extend {b : Bitmap} (h : b.WellFormed) (vs : List Bool) :
    (b.extend vs).toList = b.toList ++ vs := by
  induction vs generalizing b with
  | nil => exact (List.append_nil _).symm
  | cons v vs ih =>
    show ((b.push v).extend vs).toList = _
    rw [ih (h.push v), h.toList_push, List.append_assoc, List.singleton_append]

theorem wellFormed_ofList (vs : List Bool) : (ofList vs).WellFormed := wellFormed_empty.extend vs

@[simp] theorem toList_ofList (vs : List Bool) : (ofList vs).toList = vs :=
  wellFormed_empty.toList_extend vs

@[simp] theorem length_toList (b : Bitmap) : b.toList.length = b.len := by simp [toList]

@[simp] theorem len_ofList (vs : List Bool) : (ofList vs).len = vs.length := by
  rw [← length_toList, toList_ofList]

/-! ## Bits replaced -/

theorem WellFormed.div_lt_size {b : Bitmap} (h : b.WellFormed) {i : Nat} (hi : i < b.len) :
    i / 64 < b.words.size := by
  have hs := h.size_words
  omega

theorem WellFormed.put {b : Bitmap} (h : b.WellFormed) {i : Nat} (hi : i < b.len) (v : Bool) :
    (b.put i v).WellFormed := by
  refine ⟨(size_words_put b i v).trans h.size_words, fun j hj => ?_⟩
  have hj : b.len ≤ j := hj
  rw [testBit_put b v (h.div_lt_size hi), if_neg (by omega), h.testBit_of_le j hj]

theorem WellFormed.toList_put {b : Bitmap} (h : b.WellFormed) {i : Nat} (hi : i < b.len)
    (v : Bool) : (b.put i v).toList = b.toList.set i v := by
  apply List.ext_getElem?
  intro j
  rw [getElem?_toList, testBit_put b v (h.div_lt_size hi), List.getElem?_set, length_toList,
    getElem?_toList]
  show (if j < b.len then _ else none) = _
  by_cases hij : i = j
  · subst hij
    simp [hi]
  · have hji : j ≠ i := fun heq => hij heq.symm
    simp [hij, hji]

/-! ## Bitmaps of equal bits -/

/-- Bit `j` of word `i`. -/
theorem testBit_word (b : Bitmap) {i j : Nat} (hi : i < b.words.size) (hj : j < 64) :
    b.words[i].toNat.testBit j = b.testBit (64 * i + j) := by
  have hdiv : (64 * i + j) / 64 = i := by omega
  have hmod : (64 * i + j) % 64 = j := by omega
  rw [testBit_eq, hdiv, hmod, Array.getD_eq_getD_getElem?, Array.getElem?_eq_getElem hi,
    Option.getD_some]

theorem WellFormed.testBit_eq_getD {b : Bitmap} (h : b.WellFormed) (i : Nat) :
    b.testBit i = b.toList[i]?.getD false := by
  rw [getElem?_toList]
  split
  · rfl
  · next hi => exact h.testBit_of_le i (Nat.le_of_not_lt hi)

/-- Equal bits make equal bitmaps, as nothing stands behind the last bit. -/
theorem WellFormed.ext {a b : Bitmap} (ha : a.WellFormed) (hb : b.WellFormed)
    (h : a.toList = b.toList) : a = b := by
  have hlen : a.len = b.len := by rw [← length_toList, h, length_toList]
  have hsize : a.words.size = b.words.size := by rw [ha.size_words, hb.size_words, hlen]
  have hbit : ∀ i, a.testBit i = b.testBit i := fun i => by
    rw [ha.testBit_eq_getD, hb.testBit_eq_getD, h]
  have hwords : a.words = b.words := by
    refine Array.ext hsize fun i hi hi' => UInt64.toNat_inj.1 (Nat.eq_of_testBit_eq fun j => ?_)
    by_cases hj : j < 64
    · rw [testBit_word a hi hj, testBit_word b hi' hj, hbit]
    · have hlt : ∀ w : UInt64, w.toNat.testBit j = false := fun w =>
        Nat.testBit_lt_two_pow (Nat.lt_of_lt_of_le w.toNat_lt
          (Nat.pow_le_pow_right (by decide) (by omega)))
      rw [hlt, hlt]
  cases a
  cases b
  cases hlen
  cases hwords
  rfl

/-! ## Ones -/

theorem testBit_mask_sub_one (n j : Nat) :
    (mask n - 1).toNat.testBit j = decide (j < n % 64) := by
  have hmask : (mask n).toNat = 2 ^ (n % 64) := by rw [toNat_mask, Nat.one_shiftLeft]
  have hle : (1 : UInt64) ≤ mask n := by
    rw [UInt64.le_iff_toNat_le, hmask]
    exact Nat.one_le_two_pow
  rw [UInt64.toNat_sub_of_le _ _ hle, hmask]
  exact Nat.testBit_two_pow_sub_one _ _

/-- The word that has the bits `i` of `n` ones. -/
theorem getD_words_allTrue (n i : Nat) :
    (allTrue n).words.getD i 0 =
      if i < n / 64 then 0 - 1 else if i = n / 64 ∧ n % 64 ≠ 0 then mask n - 1 else 0 := by
  simp only [allTrue, Array.getD_eq_getD_getElem?]
  by_cases hfull : n % 64 = 0
  · by_cases hlt : i < n / 64 <;> simp [hfull, hlt]
  · simp only [hfull, ↓reduceIte, Array.getElem?_push, Array.getElem?_replicate,
      Array.size_replicate]
    by_cases heq : i = n / 64
    · simp [heq, hfull]
    · by_cases hlt : i < n / 64 <;> simp [heq, hlt]

theorem testBit_allTrue (n i : Nat) : (allTrue n).testBit i = decide (i < n) := by
  have hones : (0 - 1 : UInt64).toNat = 2 ^ 64 - 1 := rfl
  rw [testBit_eq, getD_words_allTrue]
  split
  · rw [hones, Nat.testBit_two_pow_sub_one, decide_eq_true (by omega), decide_eq_true (by omega)]
  · split
    · rw [testBit_mask_sub_one, decide_eq_decide]
      omega
    · rw [UInt64.toNat_zero, Nat.zero_testBit, decide_eq_false (by omega)]

/-- Ones behind the last bit would make two bitmaps of ones differ. -/
theorem wellFormed_allTrue (n : Nat) : (allTrue n).WellFormed := by
  refine ⟨?_, fun i hi => ?_⟩
  · show (if n % 64 = 0 then _ else _ : Array UInt64).size = (n + 63) / 64
    split
    · rw [Array.size_replicate]
      omega
    · rw [Array.size_push, Array.size_replicate]
      omega
  · have hi : n ≤ i := hi
    rw [testBit_allTrue, decide_eq_false (by omega)]

@[simp] theorem toList_allTrue (n : Nat) : (allTrue n).toList = List.replicate n true := by
  apply List.ext_getElem?
  intro i
  rw [getElem?_toList, testBit_allTrue, List.getElem?_replicate]
  show (if i < n then _ else none) = _
  split
  · next hi => rw [decide_eq_true hi]
  · rfl

end ColumnFlow.Bitmap
