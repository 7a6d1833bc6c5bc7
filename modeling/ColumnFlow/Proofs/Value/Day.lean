import ColumnFlow.Value.Time

/-!
# Days as words

Civil dates follow each other day by day. A date's rank puts year, month and day of the month into
one number, and the calendar has no date between a day and the next one, so later dates are those of
greater rank. The word of a day is the rank of its date. Main statement: packing a date into a word
loses nothing, adds nothing, and keeps the order of time (`Day.packing_exact`).
-/

namespace ColumnFlow

namespace CivilDate

variable {a b : CivilDate}

/-! ## The course of the calendar -/

/-- The day that follows. -/
def next (date : CivilDate) : CivilDate :=
  if date.day < monthLength date.year date.month then { date with day := date.day + 1 }
  else if date.month < 12 then ⟨date.year, date.month + 1, 1⟩
  else ⟨date.year + 1, 1, 1⟩

/-- One date comes before another if going on from day to day leads to it. -/
inductive Before : CivilDate → CivilDate → Prop where
  | tomorrow (date : CivilDate) : Before date date.next
  | later {a b : CivilDate} (h : Before a.next b) : Before a b

/-- The month has such a day, whatever the year. -/
def Regular (date : CivilDate) : Prop :=
  1 ≤ date.day ∧ date.day ≤ monthLength date.year date.month

theorem Exists.regular (h : a.Exists) : a.Regular := h.2

theorem monthLength_le (year : Int) (month : Nat) : monthLength year month ≤ 31 := by
  unfold monthLength
  cases isLeap year <;> split <;> simp

theorem monthLength_pos_iff {year : Int} :
    ∀ {month : Nat}, 1 ≤ monthLength year month ↔ 1 ≤ month ∧ month ≤ 12
  | 0 | 1 | 3 | 4 | 5 | 6 | 7 | 8 | 9 | 10 | 11 | 12 => by simp [monthLength]
  | 2 => by cases hleap : isLeap year <;> simp [monthLength, hleap]
  | month + 13 => by simp [monthLength]

theorem Regular.month_pos (h : a.Regular) : 1 ≤ a.month :=
  (monthLength_pos_iff.1 (Nat.le_trans h.1 h.2)).1

theorem Regular.month_le (h : a.Regular) : a.month ≤ 12 :=
  (monthLength_pos_iff.1 (Nat.le_trans h.1 h.2)).2

theorem Regular.day_le (h : a.Regular) : a.day ≤ 31 :=
  Nat.le_trans h.2 (monthLength_le a.year a.month)

/-- The calendar goes on from any date to one that it has. -/
theorem regular_next (date : CivilDate) : date.next.Regular := by
  unfold next
  by_cases hday : date.day < monthLength date.year date.month
  · rw [if_pos hday]
    exact ⟨Nat.le_add_left 1 date.day, hday⟩
  · rw [if_neg hday]
    by_cases hmonth : date.month < 12
    · rw [if_pos hmonth]
      exact ⟨Nat.le_refl 1, monthLength_pos_iff.2 ⟨Nat.le_add_left 1 date.month, hmonth⟩⟩
    · rw [if_neg hmonth]
      exact ⟨Nat.le_refl 1, monthLength_pos_iff.2 (by simp)⟩

/-! ## Ranks -/

/-- Year, month and day of the month in one number: what a word holds, but for years of any size. -/
def rank (date : CivilDate) : Int :=
  date.year * Day.yearUnit + date.month * Day.monthUnit + date.day

theorem Regular.rank_inj (ha : a.Regular) (hb : b.Regular) (h : a.rank = b.rank) : a = b := by
  obtain ⟨year, month, day⟩ := a
  obtain ⟨year', month', day'⟩ := b
  have hm := ha.month_le
  have hm' := hb.month_le
  have hd := ha.day_le
  have hd' := hb.day_le
  simp only [rank, Day.yearUnit, Day.monthUnit] at *
  have hyear : year = year' := by omega
  have hmonth : month = month' := by omega
  have hday : day = day' := by omega
  rw [hyear, hmonth, hday]

/-- Ranks are compared by the years, then by the months, then by the days. -/
theorem Regular.rank_lt_iff (ha : a.Regular) (hb : b.Regular) :
    a.rank < b.rank ↔ a.year < b.year ∨
      a.year = b.year ∧ (a.month < b.month ∨ a.month = b.month ∧ a.day < b.day) := by
  have hm := ha.month_le
  have hm' := hb.month_le
  have hd := ha.day_le
  have hd' := hb.day_le
  simp only [rank, Day.yearUnit, Day.monthUnit]
  omega

theorem Regular.rank_lt_rank_next (h : a.Regular) : a.rank < a.next.rank := by
  rw [h.rank_lt_iff (regular_next a)]
  unfold next
  by_cases hday : a.day < monthLength a.year a.month
  · simp [hday]
  · by_cases hmonth : a.month < 12
    · simp [hday, hmonth]
    · simp only [if_neg hday, if_neg hmonth]
      exact .inl (Int.lt_succ a.year)

/-- No date comes between a day and the next one. -/
theorem Regular.rank_next_le (ha : a.Regular) (hb : b.Regular) (h : a.rank < b.rank) :
    a.next.rank ≤ b.rank := by
  refine Int.not_lt.1 fun hlt => ?_
  have hfirst := (ha.rank_lt_iff hb).1 h
  have hsecond := (hb.rank_lt_iff (regular_next a)).1 hlt
  have hmonth := hb.month_le
  have hpos := hb.month_pos
  have hone : 1 ≤ b.day := hb.1
  unfold next at hsecond
  by_cases hday : a.day < monthLength a.year a.month
  · rw [if_pos hday] at hsecond
    simp only at hsecond
    omega
  · have hlast : a.year = b.year → a.month = b.month → b.day ≤ a.day := by
      intro hyear hsame
      have hlen := hb.2
      rw [← hyear, ← hsame] at hlen
      omega
    rw [if_neg hday] at hsecond
    by_cases hlater : a.month < 12
    · rw [if_pos hlater] at hsecond
      simp only at hsecond
      omega
    · rw [if_neg hlater] at hsecond
      simp only at hsecond
      omega

theorem Before.rank_lt (h : a.Before b) (ha : a.Regular) : a.rank < b.rank := by
  induction h with
  | tomorrow a => exact ha.rank_lt_rank_next
  | later _ ih => exact Int.lt_trans ha.rank_lt_rank_next (ih (regular_next _))

theorem Regular.before_of_rank_lt (ha : a.Regular) (hb : b.Regular) (h : a.rank < b.rank) :
    a.Before b := by
  -- on the distance to go; each day makes it smaller
  induction hn : (b.rank - a.rank).toNat using Nat.strongRecOn generalizing a with
  | ind n ih =>
    have hstep := ha.rank_lt_rank_next
    have hle := ha.rank_next_le hb h
    by_cases heq : a.next.rank = b.rank
    · rw [← (regular_next a).rank_inj hb heq]
      exact .tomorrow a
    · exact .later (ih _ (by omega) (regular_next a) (by omega) rfl)

/-- Time goes with the rank. -/
theorem Regular.before_iff (ha : a.Regular) (hb : b.Regular) : a.Before b ↔ a.rank < b.rank :=
  ⟨fun h => h.rank_lt ha, ha.before_of_rank_lt hb⟩

end CivilDate

namespace Day

open CivilDate

variable {year : Int} {month day : Nat} {d e : Day}

/-! ## The layout of a word -/

theorem year_eq_shiftRight (d : Day) : d.year = (d.packed >>> 9).toNat := by
  rw [UInt32.toNat_shiftRight, Nat.shiftRight_eq_div_pow]
  rfl

theorem month_eq_and (d : Day) : d.month = (d.packed >>> 5 &&& 15).toNat := by
  have hmask : (15 : UInt32).toNat = 2 ^ 4 - 1 := rfl
  have hshift : (5 : UInt32).toNat % 32 = 5 := rfl
  rw [UInt32.toNat_and, UInt32.toNat_shiftRight, hshift, hmask, Nat.and_two_pow_sub_one_eq_mod,
    Nat.shiftRight_eq_div_pow]
  simp only [Day.month, yearUnit, monthUnit]
  omega

theorem dayOfMonth_eq_and (d : Day) : d.dayOfMonth = (d.packed &&& 31).toNat := by
  have hmask : (31 : UInt32).toNat = 2 ^ 5 - 1 := rfl
  rw [UInt32.toNat_and, hmask, Nat.and_two_pow_sub_one_eq_mod]
  rfl

/-- Neither the day nor the month reaches into the field above it. -/
theorem packed_pack (year : Nat) (hm : month < 16) (hd : day < monthUnit) :
    (pack year month day).packed
      = UInt32.ofNat year <<< 9 ||| UInt32.ofNat month <<< 5 ||| UInt32.ofNat day := by
  have hmonth : year * yearUnit + month * monthUnit = (year <<< 4 ||| month) <<< 5 := by
    rw [← Nat.shiftLeft_add_eq_or_of_lt hm]
    simp only [Nat.shiftLeft_eq, yearUnit, monthUnit]
    omega
  have hfields : year * yearUnit + month * monthUnit + day
      = year <<< 9 ||| month <<< 5 ||| day := by
    rw [hmonth, Nat.shiftLeft_add_eq_or_of_lt hd, Nat.shiftLeft_or_distrib, ← Nat.shiftLeft_add]
  rw [pack, hfields, UInt32.ofNat_or, UInt32.ofNat_or, UInt32.ofNat_shiftLeft _ _ (by decide),
    UInt32.ofNat_shiftLeft _ _ (by decide)]
  rfl

/-! ## Packing a date -/

theorem ofDate_eq_ok_iff {date : CivilDate} :
    ofDate date = .ok d ↔
      (0 ≤ date.year ∧ date.year < yearCount) ∧ d = pack date.year.toNat date.month date.day := by
  unfold ofDate
  by_cases h : date.year < 0 ∨ (yearCount : Int) ≤ date.year
  · rw [if_pos h]
    refine iff_of_false nofun fun hdate => ?_
    omega
  · have hrange : 0 ≤ date.year ∧ date.year < yearCount := by omega
    rw [if_neg h, and_iff_right hrange, Except.ok.injEq, eq_comm]

/-- A day is made of the dates from year 0 on. Their years all fit a word. -/
theorem ofParts_eq_ok_iff :
    ofParts year month day = .ok d ↔
      (CivilDate.mk year month day).Exists ∧ 0 ≤ year ∧ d = pack year.toNat month day := by
  unfold ofParts of?
  by_cases h : (CivilDate.mk year month day).Exists
  · have hlast : year < yearCount := Int.lt_of_le_of_lt h.1.2 (by decide)
    simp [h, ofDate_eq_ok_iff, hlast]
  · simp [h]

/-- The word of a date is its rank. -/
theorem toNat_packed_of_ofParts (h : ofParts year month day = .ok d) :
    (d.packed.toNat : Int) = (CivilDate.mk year month day).rank := by
  obtain ⟨hexists, hyear, rfl⟩ := ofParts_eq_ok_iff.1 h
  have hlast : year ≤ lastYear := hexists.1.2
  have hm : month ≤ 12 := hexists.regular.month_le
  have hd : day ≤ 31 := hexists.regular.day_le
  simp only [pack, rank, UInt32.toNat_ofNat', monthUnit, yearUnit, lastYear] at *
  omega

theorem fields_of_ofParts (h : ofParts year month day = .ok d) :
    (d.year : Int) = year ∧ d.month = month ∧ d.dayOfMonth = day := by
  obtain ⟨hexists, hyear, rfl⟩ := ofParts_eq_ok_iff.1 h
  have hlast : year < yearCount := Int.lt_of_le_of_lt hexists.1.2 (by decide)
  have hm : month < 16 := Nat.lt_of_le_of_lt hexists.regular.month_le (by decide)
  have hd : day < monthUnit := Nat.lt_of_le_of_lt hexists.regular.day_le (by decide)
  refine ⟨?_, month_pack hm hd, dayOfMonth_pack hd⟩
  rw [year_pack (by omega) hm hd]
  exact Int.toNat_of_nonneg hyear

theorem pack_fields (d : Day) : pack d.year d.month d.dayOfMonth = d := by
  obtain ⟨packed⟩ := d
  have hlt := packed.toNat_lt
  refine congrArg Day.mk (UInt32.toNat_inj.1 ?_)
  simp only [Day.year, Day.month, dayOfMonth, UInt32.toNat_ofNat', monthUnit, yearUnit]
  omega

/-- Years of words are never out of range. -/
theorem ofDate_of_date? {date : CivilDate} (h : d.date? = some date) : ofDate date = .ok d := by
  obtain ⟨-, rfl⟩ := of?_eq_some_iff.1 h
  have hlt := d.packed.toNat_lt
  refine ofDate_eq_ok_iff.2 ⟨⟨Int.natCast_nonneg _, ?_⟩, (pack_fields d).symm⟩
  simp only [Day.year, yearUnit, yearCount]
  omega

theorem date?_of_ofParts (h : ofParts year month day = .ok d) :
    d.date? = some ⟨year, month, day⟩ := by
  obtain ⟨hyear, hmonth, hday⟩ := fields_of_ofParts h
  rw [date?, hyear, hmonth, hday]
  exact of?_eq_some_iff.2 ⟨(ofParts_eq_ok_iff.1 h).1, rfl⟩

/-- Words are compared as their dates are in time. -/
theorem packed_lt_iff {a b : CivilDate} (hd : ofParts a.year a.month a.day = .ok d)
    (he : ofParts b.year b.month b.day = .ok e) : d.packed < e.packed ↔ a.Before b := by
  have ha : a.Regular := (ofParts_eq_ok_iff.1 hd).1.regular
  have hb : b.Regular := (ofParts_eq_ok_iff.1 he).1.regular
  have hrank : (d.packed.toNat : Int) = a.rank := toNat_packed_of_ofParts hd
  have hrank' : (e.packed.toNat : Int) = b.rank := toNat_packed_of_ofParts he
  rw [ha.before_iff hb, UInt32.lt_iff_toNat_lt, ← hrank, ← hrank', Int.ofNat_lt]

/-- Days are exact codes of civil dates. The day of the month stands in the lowest five bits of the
word, the month in the four above them, and the year in the rest. A year, a month and a day of the
month make a day exactly if there is such a date and its year is not negative, and all of them are
read from it again. Of two days so made the words compare as the dates do in time. And if any word
names a date, then that date makes this word. -/
theorem packing_exact :
    (∀ d : Day, d.year = (d.packed >>> 9).toNat ∧ d.month = (d.packed >>> 5 &&& 15).toNat ∧
      d.dayOfMonth = (d.packed &&& 31).toNat) ∧
    (∀ (year : Int) (month day : Nat),
      (∃ d, ofParts year month day = .ok d) ↔ (CivilDate.mk year month day).Exists ∧ 0 ≤ year) ∧
    (∀ (year : Int) (month day : Nat) (d : Day), ofParts year month day = .ok d →
      d.packed = UInt32.ofNat year.toNat <<< 9 ||| UInt32.ofNat month <<< 5 ||| UInt32.ofNat day ∧
      (d.year : Int) = year ∧ d.month = month ∧ d.dayOfMonth = day ∧
      d.date? = some ⟨year, month, day⟩) ∧
    (∀ (a b : CivilDate) (d e : Day), ofParts a.year a.month a.day = .ok d →
      ofParts b.year b.month b.day = .ok e →
      (d.packed < e.packed ↔ a.Before b) ∧ (d.packed = e.packed ↔ a = b)) ∧
    ∀ (d : Day) (date : CivilDate), d.date? = some date →
      ofDate date = .ok d ∧ ofParts date.year date.month date.day = .ok d := by
  refine ⟨fun d => ⟨year_eq_shiftRight d, month_eq_and d, dayOfMonth_eq_and d⟩,
    fun year month day => ?_, fun year month day d h => ?_, fun a b d e hd he => ?_,
    fun d date h => ?_⟩
  · simp [ofParts_eq_ok_iff]
  · obtain ⟨hyear, hmonth, hday⟩ := fields_of_ofParts h
    refine ⟨?_, hyear, hmonth, hday, date?_of_ofParts h⟩
    obtain ⟨hexists, -, rfl⟩ := ofParts_eq_ok_iff.1 h
    exact packed_pack _ (Nat.lt_of_le_of_lt hexists.regular.month_le (by decide))
      (Nat.lt_of_le_of_lt hexists.regular.day_le (by decide))
  · refine ⟨packed_lt_iff hd he, fun h => ?_, fun h => ?_⟩
    · -- one word is read as one date
      have hday : d = e := congrArg Day.mk h
      have hdate : d.date? = some a := date?_of_ofParts hd
      rw [hday, date?_of_ofParts he] at hdate
      exact (Option.some.inj hdate).symm
    · rw [h, he] at hd
      rw [Except.ok.inj hd]
  · obtain ⟨hexists, hdate⟩ := of?_eq_some_iff.1 h
    have hday := ofDate_of_date? h
    refine ⟨hday, ?_⟩
    rw [ofParts, of?, if_pos hexists]
    exact hday

/-- The last day of a year and a leap day of the next one, and a word that is read as a date. -/
theorem packing_exact_leapDay :
    ∃ d e, ofParts 2023 12 31 = .ok d ∧ ofParts 2024 2 29 = .ok e ∧ d.packed < e.packed ∧
      (CivilDate.mk 2023 12 31).Before ⟨2024, 2, 29⟩ ∧ e.date? = some ⟨2024, 2, 29⟩ ∧
      ofDate ⟨2024, 2, 29⟩ = .ok ⟨1036381⟩ := by
  obtain ⟨-, -, hparts, horder, hword⟩ := packing_exact
  obtain ⟨d, hd⟩ : ∃ d, ofParts 2023 12 31 = .ok d := ⟨_, rfl⟩
  obtain ⟨e, he⟩ : ∃ e, ofParts 2024 2 29 = .ok e := ⟨_, rfl⟩
  have hlt : d.packed < e.packed := by
    cases hd
    cases he
    decide
  have hbefore := (horder ⟨2023, 12, 31⟩ ⟨2024, 2, 29⟩ d e hd he).1.1 hlt
  have hdate : (⟨1036381⟩ : Day).date? = some ⟨2024, 2, 29⟩ := rfl
  exact ⟨d, e, hd, he, hlt, hbefore, (hparts 2024 2 29 e he).2.2.2.2, (hword _ _ hdate).1⟩

end Day

end ColumnFlow
