/-!
# Civil dates

Dates of the proleptic Gregorian calendar in a range of years, and their written form. The calendar
is not what is proved here: its rule of leap years, the lengths of its months, the years it goes
from and to, and the way it writes a date are assumed of the calendar library that dates come from.
All that is said about packed days rests on these definitions.
-/

namespace ColumnFlow

/-- A year, a month and a day of the month; `Exists` says whether there is such a date. -/
structure CivilDate where
  year : Int
  month : Nat
  day : Nat
  deriving DecidableEq

namespace CivilDate

/-- The first year of the calendar, assumed as described above. -/
def firstYear : Int := -262143

/-- The last year of the calendar, assumed as described above. -/
def lastYear : Int := 262142

/-- Every fourth year is a leap year, of the centuries only every fourth. -/
def isLeap (year : Int) : Bool :=
  year % 4 == 0 && (year % 100 != 0 || year % 400 == 0)

/-- The number of days in a month, 0 for a month that does not exist. -/
def monthLength (year : Int) : Nat → Nat
  | 1 | 3 | 5 | 7 | 8 | 10 | 12 => 31
  | 4 | 6 | 9 | 11 => 30
  | 2 => if isLeap year then 29 else 28
  | _ => 0

/-- The date is one of the calendar. A month that does not exist has no day. -/
def Exists (date : CivilDate) : Prop :=
  (firstYear ≤ date.year ∧ date.year ≤ lastYear) ∧
    1 ≤ date.day ∧ date.day ≤ monthLength date.year date.month

instance (date : CivilDate) : Decidable date.Exists := by
  unfold Exists
  infer_instance

/-- The date with the given parts, if the calendar has it. -/
def of? (year : Int) (month day : Nat) : Option CivilDate :=
  if Exists ⟨year, month, day⟩ then some ⟨year, month, day⟩ else none

theorem of?_eq_some_iff {year : Int} {month day : Nat} {date : CivilDate} :
    of? year month day = some date ↔ date.Exists ∧ date = ⟨year, month, day⟩ := by
  unfold of?
  split
  · next h => exact ⟨fun e => by cases e; exact ⟨h, rfl⟩, fun e => by rw [e.2]⟩
  · next h => exact ⟨nofun, fun e => absurd (e.2 ▸ e.1) h⟩

/-- The decimal digits of `n`, filled up with zeros to `width`. -/
def padded (width n : Nat) : String :=
  let digits := toString n
  "".pushn '0' (width - digits.length) ++ digits

/-- Years have at least four digits; one outside 0 to 9999 carries its sign. -/
def yearText (year : Int) : String :=
  if year < 0 then "-" ++ padded 4 year.natAbs
  else if year ≤ 9999 then padded 4 year.natAbs
  else "+" ++ padded 4 year.natAbs

/-- The written form: year, month and day, joined by hyphens. -/
def text (date : CivilDate) : String :=
  yearText date.year ++ "-" ++ padded 2 date.month ++ "-" ++ padded 2 date.day

end CivilDate

end ColumnFlow
