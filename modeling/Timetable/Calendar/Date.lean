/-
**Dates of the Gregorian calendar.**

Days are counted from 1970-01-01, day zero, in both directions and without end; the Gregorian
leap-year rule is applied to all years, also to those before it was introduced, and year zero is
the year before year one.  A date is read off a day number by splitting the count into the
400-year cycles of the calendar, each starting on the first of March so that a leap day is the last
day of its year.

Main definitions:

* `Date` — a year, a month and a day;
* `Date.isLeapYear`, `Date.daysInMonth` — the leap-year rule and the lengths of the months;
* `Date.ofDay` — the date of a day number;
* `Date.day` — the day number of a date;
* `Date.weekday` — the day of the week of a day number, counted from Sunday as zero.
-/

set_option autoImplicit false
set_option relaxedAutoImplicit false

namespace Timetable

/-- A date: the year, the month from 1 to 12 and the day of the month from 1. -/
structure Date where
  /-- The year; year zero comes before year one. -/
  year : Int
  /-- The month, from 1 to 12. -/
  month : Nat
  /-- The day of the month, from 1. -/
  dayOfMonth : Nat
  deriving Repr, DecidableEq

namespace Date

/-! ### Years and months -/

/-- Every fourth year is a leap year, except those of full centuries not divisible by 400. -/
def isLeapYear (y : Int) : Bool :=
  y % 4 == 0 && (y % 100 != 0 || y % 400 == 0)

/-- The number of days of a month. -/
def daysInMonth (y : Int) (m : Nat) : Nat :=
  if m = 2 then (if isLeapYear y then 29 else 28)
  else if m = 4 ∨ m = 6 ∨ m = 9 ∨ m = 11 then 30
  else 31

/-- The date names a day that exists. -/
def Valid (d : Date) : Prop :=
  1 ≤ d.month ∧ d.month ≤ 12 ∧ 1 ≤ d.dayOfMonth ∧ d.dayOfMonth ≤ daysInMonth d.year d.month

instance (d : Date) : Decidable d.Valid := inferInstanceAs (Decidable (_ ∧ _))

/-! ### Day numbers -/

/-- Days from the first of March of year zero to day zero. -/
def marchShift : Int := 719468

/-- Days of a 400-year cycle. -/
def cycleDays : Int := 146097

/-- **The date of a day number.** -/
def ofDay (n : Int) : Date :=
  let z := n + marchShift
  let cycle := z / cycleDays
  let inCycle := (z % cycleDays).toNat
  let yearOfCycle := (inCycle - inCycle / 1460 + inCycle / 36524 - inCycle / 146096) / 365
  let inYear := inCycle - (365 * yearOfCycle + yearOfCycle / 4 - yearOfCycle / 100)
  let marchMonth := (5 * inYear + 2) / 153
  let dayOfMonth := inYear - (153 * marchMonth + 2) / 5 + 1
  let month := if marchMonth < 10 then marchMonth + 3 else marchMonth - 9
  let year := (yearOfCycle : Int) + cycle * 400 + (if month ≤ 2 then 1 else 0)
  { year, month, dayOfMonth }

/-- **The day number of a date.** -/
def day (d : Date) : Int :=
  let y := if d.month ≤ 2 then d.year - 1 else d.year
  let marchMonth := (d.month + 9) % 12
  365 * y + y / 4 - y / 100 + y / 400 + ((153 * marchMonth + 2) / 5 : Nat) + d.dayOfMonth - 1
    - marchShift

/-- The day of the week of a day number: 0 is Sunday, 6 is Saturday. -/
def weekday (n : Int) : Nat :=
  ((n + 4) % 7).toNat

/-! ### Facts -/

theorem weekday_lt (n : Int) : weekday n < 7 := by
  unfold weekday; omega

/-- A week later is the same day of the week. -/
theorem weekday_add_seven (n : Int) : weekday (n + 7) = weekday n := by
  unfold weekday; omega

example : ofDay 0 = ⟨1970, 1, 1⟩ ∧ weekday 0 = 4 := by decide

end Date

end Timetable
