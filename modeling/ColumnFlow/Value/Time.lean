import ColumnFlow.Error

/-!
# Dates and days

A date is a number of milliseconds. A day is a civil date packed into one word: the day of the
month in the low 5 bits, the month in the 4 bits above them, the year above those. So the order of
the words is the order of the days.
-/

namespace ColumnFlow

/-- A point in time, in milliseconds. -/
structure Date where
  millis : Int64
  deriving DecidableEq

namespace Date

/-- The point that milliseconds are counted from. -/
def epoch : Date := ⟨0⟩

/-- Dates are ordered by time. -/
instance : Ord Date where
  compare a b := compare a.millis b.millis

end Date

/-- A civil date in one word. Any word is a day; `date?` says whether it names a civil date. -/
structure Day where
  packed : UInt32
  deriving DecidableEq

namespace Day

/-- The word 0, which names no civil date; it is the placeholder for an absent day. -/
def zero : Day := ⟨0⟩

/-- What a month counts in a word: it stands above the 5 bits of the day. -/
def monthUnit : Nat := 32

/-- What a year counts in a word: it stands above the 4 bits of the month. -/
def yearUnit : Nat := 512

/-- The number of years that fit a word. -/
def yearCount : Nat := 8388608

/-- The year of the word. -/
def year (d : Day) : Nat := d.packed.toNat / yearUnit

/-- The month of the word, below 16. -/
def month (d : Day) : Nat := d.packed.toNat % yearUnit / monthUnit

/-- The day of the month of the word, below 32. -/
def dayOfMonth (d : Day) : Nat := d.packed.toNat % monthUnit

/-- The word of a year, a month and a day of the month. -/
def pack (year month day : Nat) : Day :=
  ⟨UInt32.ofNat (year * yearUnit + month * monthUnit + day)⟩

/-- The day of a civil date. Years before 0, and years of more than 23 bits, do not fit. -/
def ofDate (date : CivilDate) : Except Error Day :=
  if date.year < 0 ∨ (yearCount : Int) ≤ date.year then .error (.of (.yearOutOfRange date))
  else .ok (pack date.year.toNat date.month date.day)

/-- The day of a year, a month and a day of the month. -/
def ofParts (year : Int) (month day : Nat) : Except Error Day :=
  match CivilDate.of? year month day with
  | some date => ofDate date
  | none => .error (.of (.invalidDay year month day))

/-- The civil date that the word names. -/
def date? (d : Day) : Option CivilDate := CivilDate.of? d.year d.month d.dayOfMonth

/-- Days are ordered by their words. -/
instance : Ord Day where
  compare a b := compare a.packed b.packed

theorem year_pack {year month day : Nat} (hy : year < yearCount) (hm : month < 16)
    (hd : day < monthUnit) : (pack year month day).year = year := by
  simp only [pack, Day.year, UInt32.toNat_ofNat', monthUnit, yearUnit, yearCount] at *
  omega

theorem month_pack {year month day : Nat} (hm : month < 16) (hd : day < monthUnit) :
    (pack year month day).month = month := by
  simp only [pack, Day.month, UInt32.toNat_ofNat', monthUnit, yearUnit] at *
  omega

theorem dayOfMonth_pack {year month day : Nat} (hd : day < monthUnit) :
    (pack year month day).dayOfMonth = day := by
  simp only [pack, dayOfMonth, UInt32.toNat_ofNat', monthUnit, yearUnit] at *
  omega

end Day

end ColumnFlow
