/-
**Day numbers and dates.**

A day number is turned into a date by arithmetic on the 400-year cycle of the calendar, with years
that begin in March so that a leap day comes last.  This module shows that the arithmetic is right:
the date of a day number exists in the calendar, and reading the day number off it gives the number
back, so that day numbers and dates are two names for the same days, without end in both directions.

Main definitions:

* `Date.ofMarch` — the date of a day of a year counted from March;
* `Date.InMarchYear` — the days that such a year has.

Main results:

* `Date.valid_ofDay`, `Date.day_ofDay`, `Date.ofDay_day` — **dates and day numbers correspond**;
* `Date.ofDay_add` — inside a month the day of the month counts the days.
-/

import Mathlib.Tactic.NormNum
import Timetable.Calendar.Date

set_option autoImplicit false
set_option relaxedAutoImplicit false

namespace Timetable

namespace Date

/-! ### Years of a cycle -/

/-- The year, from 0 to 399, that a day of a 400-year cycle lies in. -/
def cycleYear (c : Nat) : Nat := (c - c / 1460 + c / 36524 - c / 146096) / 365

/-- A day of the cycle is written as centuries, four-year groups, years and days; a year has its
366th day when it ends a group, unless that group is cut short by the end of a century. -/
theorem exists_split {c : Nat} (hc : c < 146097) :
    ∃ w v u x : Nat, w ≤ 3 ∧ v ≤ 24 ∧ u ≤ 3 ∧
      (x ≤ 364 ∨ (x = 365 ∧ u = 3 ∧ (v < 24 ∨ w = 3))) ∧
      c = 36524 * w + (1461 * v + (365 * u + x)) := by
  obtain ⟨w, r, hw, rfl, hr⟩ :
      ∃ w r, w ≤ 3 ∧ c = 36524 * w + r ∧ (r < 36524 ∨ (w = 3 ∧ r ≤ 36524)) :=
    ⟨min (c / 36524) 3, c - 36524 * min (c / 36524) 3, by omega, by omega, by omega⟩
  obtain ⟨v, q, hv, rfl, hq, hlast⟩ :
      ∃ v q, v ≤ 24 ∧ r = 1461 * v + q ∧ q ≤ 1460 ∧ (v = 24 → w < 3 → q < 1460) :=
    ⟨r / 1461, r % 1461, by omega, by omega, by omega, by omega⟩
  exact ⟨w, v, min (q / 365) 3, q - 365 * min (q / 365) 3, hw, hv, by omega, by omega, by omega⟩

/-- The quotient that stands for the year is right, also on the last day of the cycle. -/
theorem cycleYear_eq {w v u x : Nat} (hw : w ≤ 3) (hv : v ≤ 24) (hu : u ≤ 3)
    (hx : x ≤ 364 ∨ (x = 365 ∧ u = 3 ∧ (v < 24 ∨ w = 3))) :
    cycleYear (36524 * w + (1461 * v + (365 * u + x))) = 100 * w + 4 * v + u := by
  unfold cycleYear
  generalize hr : 1461 * v + (365 * u + x) = r
  have hr4 : r ≤ 36524 := by omega
  by_cases hlast : r = 36524
  · obtain ⟨rfl, rfl, rfl⟩ : w = 3 ∧ v = 24 ∧ u = 3 := by omega
    subst hlast
    decide
  have hcent : (36524 * w + r) / 36524 = w := by omega
  have hcyc : (36524 * w + r) / 146096 = 0 := by omega
  have hquad : (36524 * w + r) / 1460 = 25 * w + v + (24 * w + v + (365 * u + x)) / 1460 := by
    omega
  rw [hcent, hcyc, hquad]
  -- the four-year groups are counted too short by one day each, which is at most one year off
  generalize hq : 24 * w + v + (365 * u + x) = q
  rcases Nat.lt_or_ge q 1460 with h | h
  · have hδ : q / 1460 = 0 := by omega
    rw [hδ]
    omega
  · have hδ : q / 1460 = 1 := by omega
    rw [hδ]
    omega

/-- The first day of a year of the cycle. -/
theorem cycleYear_start {w v u : Nat} (hv : v ≤ 24) (hu : u ≤ 3) :
    365 * (100 * w + 4 * v + u) + (100 * w + 4 * v + u) / 4 - (100 * w + 4 * v + u) / 100 =
      36524 * w + (1461 * v + 365 * u) := by
  have h4 : (100 * w + 4 * v + u) / 4 = 25 * w + v := by omega
  have h100 : (100 * w + 4 * v + u) / 100 = w := by omega
  rw [h4, h100]
  omega

/-! ### Years counted from March -/

theorem isLeapYear_iff (y : Int) :
    isLeapYear y = true ↔ y % 4 = 0 ∧ (y % 100 ≠ 0 ∨ y % 400 = 0) := by
  simp [isLeapYear]

/-- Days from the first of March of year zero to the first of March of a year. -/
def marchStart (y : Int) : Int := 365 * y + y / 4 - y / 100 + y / 400

/-- **The date of a day of a year counted from March.** -/
def ofMarch (y : Int) (x : Nat) : Date :=
  let m := (5 * x + 2) / 153
  let month := if m < 10 then m + 3 else m - 9
  { year := y + (if month ≤ 2 then 1 else 0), month, dayOfMonth := x - (153 * m + 2) / 5 + 1 }

/-- The days of a year counted from March: 365 of them, and one more when February, which falls
into the next calendar year, has 29 days. -/
def InMarchYear (y : Int) (x : Nat) : Prop :=
  x ≤ 364 ∨ (x = 365 ∧ isLeapYear (y + 1) = true)

theorem InMarchYear.le {y : Int} {x : Nat} (h : InMarchYear y x) : x ≤ 365 := by
  rcases h with h | ⟨h, -⟩ <;> omega

/-- Every day number is a day of a year counted from March, and its date is read off there. -/
theorem exists_march (n : Int) :
    ∃ (y : Int) (x : Nat), InMarchYear y x ∧ n = marchStart y + x - marchShift ∧
      ofDay n = ofMarch y x := by
  have hc : ((n + marchShift) % cycleDays).toNat < 146097 := by
    simp only [cycleDays, marchShift]; omega
  obtain ⟨w, v, u, x, hw, hv, hu, hx, hsplit⟩ := exists_split hc
  refine ⟨100 * w + 4 * v + u + (n + marchShift) / cycleDays * 400, x, ?_, ?_, ?_⟩
  · rcases hx with hx | ⟨hx, hu3, h⟩
    · exact Or.inl hx
    · refine Or.inr ⟨hx, (isLeapYear_iff _).2 ?_⟩
      omega
  · simp only [marchStart, cycleDays, marchShift] at hsplit ⊢
    omega
  · have hy := cycleYear_eq hw hv hu hx
    have hin : ((n + marchShift) % cycleDays).toNat -
        (365 * (100 * w + 4 * v + u) + (100 * w + 4 * v + u) / 4 - (100 * w + 4 * v + u) / 100) =
          x := by
      rw [cycleYear_start hv hu]; omega
    rw [← hsplit, cycleYear] at hy
    simp only [ofDay, ofMarch, hy, hin]
    norm_cast

/-- The days of a year come before those of every later year. -/
theorem marchStart_add_lt {y y' : Int} {x : Nat} (hx : InMarchYear y x) (hy : y < y') (x' : Nat) :
    marchStart y + x < marchStart y' + x' := by
  have hmono : marchStart (y + 1) ≤ marchStart y' := by
    simp only [marchStart]; omega
  have hin : marchStart y + x < marchStart (y + 1) := by
    rcases hx with hx | ⟨hx, hleap⟩
    · simp only [marchStart]; omega
    · rw [isLeapYear_iff] at hleap
      simp only [marchStart]; omega
  omega

/-- A day lies in one year only. -/
theorem march_unique {y y' : Int} {x x' : Nat} (hx : InMarchYear y x) (hx' : InMarchYear y' x')
    (h : marchStart y + x = marchStart y' + x') : y = y' ∧ x = x' := by
  rcases Int.lt_trichotomy y y' with hy | hy | hy
  · have := marchStart_add_lt hx hy x'; omega
  · subst hy; exact ⟨rfl, by omega⟩
  · have := marchStart_add_lt hx' hy x; omega

/-! ### Months counted from March -/

/-- The days before a month of the year counted from March, March having number zero. -/
def daysBefore (m : Nat) : Nat := (153 * m + 2) / 5

theorem exists_marchMonth {x : Nat} (hx : x ≤ 365) :
    ∃ m, (5 * x + 2) / 153 = m ∧ m ≤ 11 ∧ daysBefore m ≤ x ∧ x < daysBefore (m + 1) :=
  ⟨_, rfl, by omega, by simp only [daysBefore]; omega, by simp only [daysBefore]; omega⟩

theorem ofMarch_daysBefore_add {y : Int} {m i : Nat} (hm : m ≤ 11)
    (hi : daysBefore m + i < daysBefore (m + 1)) :
    ofMarch y (daysBefore m + i) =
      ⟨y + (if m < 10 then 0 else 1), if m < 10 then m + 3 else m - 9, i + 1⟩ := by
  have hmonth : (5 * (daysBefore m + i) + 2) / 153 = m := by
    simp only [daysBefore] at hi ⊢; omega
  have hdom : daysBefore m + i - (153 * m + 2) / 5 = i := by simp only [daysBefore]; omega
  simp only [ofMarch, hmonth, hdom]
  rcases Nat.lt_or_ge m 10 with h | h
  · simp [h]
  · have h10 : ¬ m < 10 := by omega
    have h2 : m - 9 ≤ 2 := by omega
    simp [h10, h2]

theorem eq_one_or_of_month {m : Nat} (h₁ : 1 ≤ m) (h₁₂ : m ≤ 12) :
    m = 1 ∨ m = 2 ∨ m = 3 ∨ m = 4 ∨ m = 5 ∨ m = 6 ∨ m = 7 ∨ m = 8 ∨ m = 9 ∨ m = 10 ∨ m = 11 ∨
      m = 12 := by
  omega

theorem daysInMonth_february (y : Int) :
    daysInMonth y 2 = if isLeapYear y = true then 29 else 28 := rfl

/-- No month is longer than its place among the months counted from March allows, and each but
February, the last of them, fills its place. -/
theorem daysInMonth_le (y : Int) {m : Nat} (h₁ : 1 ≤ m) (h₁₂ : m ≤ 12) :
    daysBefore ((m + 9) % 12) + daysInMonth y m ≤ daysBefore ((m + 9) % 12 + 1) := by
  rcases eq_one_or_of_month h₁ h₁₂ with
    rfl | rfl | rfl | rfl | rfl | rfl | rfl | rfl | rfl | rfl | rfl | rfl
  case inr.inl =>
    rw [daysInMonth_february]
    simp only [daysBefore]
    split <;> decide
  all_goals simp [daysInMonth, daysBefore]

theorem le_daysInMonth (y : Int) {m : Nat} (hm : m < 11) :
    daysBefore (m + 1) ≤
      daysBefore m + daysInMonth y (if m < 10 then m + 3 else m - 9) := by
  have hcases : m = 0 ∨ m = 1 ∨ m = 2 ∨ m = 3 ∨ m = 4 ∨ m = 5 ∨ m = 6 ∨ m = 7 ∨ m = 8 ∨ m = 9 ∨
      m = 10 := by omega
  rcases hcases with rfl | rfl | rfl | rfl | rfl | rfl | rfl | rfl | rfl | rfl | rfl <;>
    simp [daysInMonth, daysBefore]

/-! ### Dates and day numbers -/

theorem day_ofMarch {y : Int} {x : Nat} (hx : x ≤ 365) :
    day (ofMarch y x) = marchStart y + x - marchShift := by
  obtain ⟨m, -, hm, hlo, hhi⟩ := exists_marchMonth hx
  obtain ⟨i, rfl⟩ := Nat.exists_eq_add_of_le hlo
  rw [ofMarch_daysBefore_add hm hhi]
  rcases Nat.lt_or_ge m 10 with h | h
  · have h2 : ¬ m + 3 ≤ 2 := by omega
    have hback : (m + 3 + 9) % 12 = m := by omega
    simp only [day, marchStart, if_pos h, if_neg h2, hback, daysBefore]
    omega
  · have h10 : ¬ m < 10 := by omega
    have h2 : m - 9 ≤ 2 := by omega
    have hback : (m - 9 + 9) % 12 = m := by omega
    simp only [day, marchStart, if_neg h10, if_pos h2, hback, daysBefore]
    omega

theorem valid_ofMarch {y : Int} {x : Nat} (hx : InMarchYear y x) : (ofMarch y x).Valid := by
  obtain ⟨m, -, hm, hlo, hhi⟩ := exists_marchMonth hx.le
  obtain ⟨i, rfl⟩ := Nat.exists_eq_add_of_le hlo
  rw [ofMarch_daysBefore_add hm hhi]
  rcases Nat.lt_or_ge m 11 with h | h
  · have hlen := le_daysInMonth (y + (if m < 10 then 0 else 1)) h
    refine ⟨?_, ?_, Nat.le_add_left 1 i, ?_⟩
    · simp only; split <;> omega
    · simp only; split <;> omega
    · simp only; omega
  · -- only the end of February depends on the year
    obtain rfl : m = 11 := by omega
    refine ⟨by simp, by simp, Nat.le_add_left 1 i, ?_⟩
    simp only [daysBefore] at hx
    change i + 1 ≤ daysInMonth (y + 1) 2
    rw [daysInMonth_february]
    rcases hx with hx | ⟨hx, hleap⟩
    · split <;> omega
    · rw [if_pos hleap]
      omega

theorem exists_ofMarch {d : Date} (hd : d.Valid) : ∃ y x, InMarchYear y x ∧ d = ofMarch y x := by
  obtain ⟨year, month, dom⟩ := d
  obtain ⟨h₁, h₁₂, hlo, hhi⟩ := hd
  simp only at h₁ h₁₂ hlo hhi
  have hlen := daysInMonth_le year h₁ h₁₂
  refine ⟨if month ≤ 2 then year - 1 else year, daysBefore ((month + 9) % 12) + (dom - 1), ?_, ?_⟩
  · by_cases hfeb : month = 2 ∧ dom = 29
    · obtain ⟨rfl, rfl⟩ := hfeb
      refine Or.inr ⟨by decide, ?_⟩
      rw [daysInMonth_february] at hhi
      by_contra hleap
      rw [if_pos (by decide), Int.sub_add_cancel] at hleap
      rw [if_neg hleap] at hhi
      omega
    · have hfeb' : month = 2 → dom ≤ 28 := by
        rintro rfl
        rw [daysInMonth_february] at hhi
        split at hhi <;> omega
      simp only [daysBefore] at hlen
      simp only [InMarchYear, daysBefore]
      omega
  · rw [ofMarch_daysBefore_add (by omega) (by omega)]
    rcases Nat.lt_or_ge 2 month with h | h
    · have hp : (month + 9) % 12 = month - 3 := by omega
      simp only [hp, if_neg (by omega : ¬ month ≤ 2), if_pos (by omega : month - 3 < 10)]
      congr 1 <;> omega
    · have hp : (month + 9) % 12 = month + 9 := by omega
      simp only [hp, if_pos h, if_neg (by omega : ¬ month + 9 < 10)]
      congr 1 <;> omega

/-- **The date of a day number exists.** -/
theorem valid_ofDay (n : Int) : (ofDay n).Valid := by
  obtain ⟨y, x, hx, -, h⟩ := exists_march n
  rw [h]
  exact valid_ofMarch hx

/-- **The day number of a date of a day number is that day number.** -/
@[simp] theorem day_ofDay (n : Int) : day (ofDay n) = n := by
  obtain ⟨y, x, hx, hn, h⟩ := exists_march n
  rw [h, day_ofMarch hx.le, ← hn]

/-- **A date that exists is the date of its day number.** -/
theorem ofDay_day {d : Date} (hd : d.Valid) : ofDay (day d) = d := by
  obtain ⟨y, x, hx, rfl⟩ := exists_ofMarch hd
  obtain ⟨y', x', hx', hn, h⟩ := exists_march (day (ofMarch y x))
  rw [day_ofMarch hx.le] at hn
  obtain ⟨rfl, rfl⟩ := march_unique hx hx' (by omega)
  exact h

/-- Inside a month the day of the month counts the days. -/
theorem ofDay_add {n : Int} {k : Nat}
    (hk : (ofDay n).dayOfMonth + k ≤ daysInMonth (ofDay n).year (ofDay n).month) :
    ofDay (n + k) = { ofDay n with dayOfMonth := (ofDay n).dayOfMonth + k } := by
  obtain ⟨h₁, h₁₂, hlo, -⟩ := valid_ofDay n
  have hvalid : Valid { ofDay n with dayOfMonth := (ofDay n).dayOfMonth + k } :=
    ⟨h₁, h₁₂, by simp only; omega, hk⟩
  have hday : day { ofDay n with dayOfMonth := (ofDay n).dayOfMonth + k } = n + k := by
    have := day_ofDay n
    simp only [day] at this ⊢
    omega
  rw [← ofDay_day hvalid, hday]

end Date

end Timetable
