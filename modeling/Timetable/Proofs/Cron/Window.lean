/-
**What a window of 366 days is sure to contain.**

The next fire of a cron expression is looked for through a window of 366 days, from any minute on.
Every date that each year has comes up in such a window, at every time of day, and every month
brings every day of the week, also when the ends of the window cut the month in two.  An expression
that admits a date of a common year therefore always finds a fire, and only 29 February can be
missed: this module says exactly when a search finds nothing.

Main definitions:

* `Cron.Expression.AdmitsCommonDate` — month and day of the month admit a date of a common year;
* `Cron.Expression.AdmitsLeapDay` — they admit 29 February.

Main results:

* `Date.exists_yearly` — a date of a common year comes up in every window;
* `Cron.Expression.nonempty_firesIn_of_date`, `Cron.Expression.nonempty_firesIn_of_weekday` — what
  is sure to be found;
* `Cron.Expression.firesIn_eq_empty_iff_leapDay` — **when a window has no fire**;
* `Cron.Expression.next_eq_noMatch_iff` — **when a search finds nothing**.
-/

import Mathlib.Data.Int.LeastGreatest
import Timetable.Proofs.Cron.Search

set_option autoImplicit false
set_option relaxedAutoImplicit false

namespace Timetable

/-! ### Dates that come up every year -/

namespace Date

/-- Months of common years are the shortest. -/
theorem daysInMonth_le_of_common {y : Int} (hy : isLeapYear y = false) (y' : Int) (m : Nat) :
    daysInMonth y m ≤ daysInMonth y' m := by
  by_cases hm : m = 2
  · subst hm
    rw [daysInMonth_february, daysInMonth_february, hy, if_neg Bool.false_ne_true]
    split <;> omega
  · simp [daysInMonth, hm]

theorem isLeapYear_one : isLeapYear 1 = false := by decide

theorem twentyEight_le_daysInMonth (y : Int) (m : Nat) : 28 ≤ daysInMonth y m := by
  unfold daysInMonth
  repeat' split
  all_goals decide

/-- From one year to the next, a date moves on by 365 or 366 days. -/
theorem day_succ_year (y : Int) (m d : Nat) :
    day ⟨y, m, d⟩ + 365 ≤ day ⟨y + 1, m, d⟩ ∧ day ⟨y + 1, m, d⟩ ≤ day ⟨y, m, d⟩ + 366 := by
  simp only [day]
  split <;> omega

/-- **A date comes up in every window of 366 days**, at a given second of the day. -/
theorem exists_yearly (m d : Nat) (second s : Int) :
    ∃ y : Int, s ≤ day ⟨y, m, d⟩ * Instant.day + second ∧
      day ⟨y, m, d⟩ * Instant.day + second < s + 366 * Instant.day := by
  -- the last year in which the date comes up before the window; the year after is the one
  obtain ⟨y, hy, hlast⟩ := Int.exists_greatest_of_bdd
    (P := fun y => day ⟨y, m, d⟩ * Instant.day + second < s)
    ⟨s.natAbs + second.natAbs + 719468, fun y hy => by
      simp only [day, marchShift, Instant.day] at hy
      split at hy <;> omega⟩
    ⟨-(s.natAbs + second.natAbs + d + 719468), by
      simp only [day, marchShift, Instant.day]
      split <;> omega⟩
  have hnext := day_succ_year y m d
  have hbefore : ¬ day ⟨y + 1, m, d⟩ * Instant.day + second < s := fun h => by
    have := hlast _ h
    omega
  simp only [Instant.day] at hy hbefore ⊢
  exact ⟨y + 1, by omega, by omega⟩

/-- Of seven days in a row, one has a given day of the week. -/
theorem exists_weekday (n : Int) {w : Nat} (hw : w ≤ 6) :
    ∃ k : Nat, k ≤ 6 ∧ weekday (n + k) = w := by
  refine ⟨((w - weekday n : Int) % 7).toNat, by omega, ?_⟩
  simp only [weekday]
  omega

end Date

namespace Cron.Expression

variable {e : Expression}

/-! ### What is sure to be found -/

/-- The month and the day of the month of some date of a common year are admitted. -/
def AdmitsCommonDate (e : Expression) : Prop :=
  ∃ d : Date, d.Valid ∧ Date.isLeapYear d.year = false ∧
    e.month.contains d.month = true ∧ e.dayOfMonth.contains d.dayOfMonth = true

/-- The month and the day of the month of 29 February are admitted. -/
def AdmitsLeapDay (e : Expression) : Prop :=
  e.month.contains 2 = true ∧ e.dayOfMonth.contains 29 = true

/-- A fire of an expression at a minute of a day. -/
theorem fires_minute {n : Int} {h m : Nat} (hh : h ≤ 23) (hm : m ≤ 59)
    (hmonth : e.month.contains (Date.ofDay n).month = true)
    (hday : e.admitsDay (Date.ofDay n).dayOfMonth (Date.weekday n) = true)
    (hhour : e.hour.contains h = true) (hmin : e.minute.contains m = true) :
    e.Fires (n * Instant.day + h * Instant.hour + m * Instant.minute) := by
  refine ⟨?_, ?_⟩
  · simp only [Instant.day, Instant.hour, Instant.minute]
    omega
  · rw [matchesAt, ofInstant_minute n hh hm, admits]
    simp [hmonth, hday, hhour, hmin]

/-- An expression that admits a date of a common year, whatever the day of the week, fires in every
window. -/
theorem nonempty_firesIn_of_date {text : String} (hparse : parse text = .ok e) {d : Date}
    (hd : d.Valid) (hcommon : Date.isLeapYear d.year = false)
    (hmonth : e.month.contains d.month = true)
    (hday : ∀ w, e.admitsDay d.dayOfMonth w = true) (s : Int) :
    (e.firesIn s (s + windowDays * Instant.day)).Nonempty := by
  obtain ⟨h, hh, hhour⟩ := exists_hour_of_parse hparse
  obtain ⟨m, hm, hmin⟩ := exists_minute_of_parse hparse
  obtain ⟨y, hfrom, hto⟩ := Date.exists_yearly d.month d.dayOfMonth
    (h * Instant.hour + m * Instant.minute) s
  have hvalid : (⟨y, d.month, d.dayOfMonth⟩ : Date).Valid :=
    ⟨hd.1, hd.2.1, hd.2.2.1, hd.2.2.2.trans (Date.daysInMonth_le_of_common hcommon y d.month)⟩
  rw [← add_assoc] at hfrom hto
  refine ⟨_, hfrom, hto, fires_minute hh hm ?_ ?_ hhour hmin⟩
  · rwa [Date.ofDay_day hvalid]
  · rw [Date.ofDay_day hvalid]
    exact hday _

/-- An expression that admits a day of the week, whatever the day of the month, fires in every
window. -/
theorem nonempty_firesIn_of_weekday {text : String} (hparse : parse text = .ok e) {w : Nat}
    (hw : w ≤ 6) (hday : ∀ d, e.admitsDay d w = true) (s : Int) :
    (e.firesIn s (s + windowDays * Instant.day)).Nonempty := by
  obtain ⟨h, hh, hhour⟩ := exists_hour_of_parse hparse
  obtain ⟨m, hm, hmin⟩ := exists_minute_of_parse hparse
  obtain ⟨month, ⟨hlo, hhi⟩, hmonth⟩ := exists_month_of_parse hparse
  obtain ⟨y, hfrom, hto⟩ := Date.exists_yearly month 15 (h * Instant.hour + m * Instant.minute) s
  -- from the 9th to the 21st all days lie in the month, six of them on either side of the 15th
  have hninth : (⟨y, month, 9⟩ : Date).Valid :=
    ⟨hlo, hhi, Nat.le_add_left 1 8,
      (by decide : 9 ≤ 28).trans (Date.twentyEight_le_daysInMonth y month)⟩
  have hfifteenth : Date.day ⟨y, month, 15⟩ = Date.day ⟨y, month, 9⟩ + 6 := by
    simp only [Date.day]
    omega
  generalize hn : Date.day ⟨y, month, 9⟩ = n at hfifteenth
  have hdate : Date.ofDay n = ⟨y, month, 9⟩ := hn ▸ Date.ofDay_day hninth
  have hfires (k : Nat) (hk : k ≤ 12) (hweekday : Date.weekday (n + k) = w) :
      e.Fires ((n + k) * Instant.day + h * Instant.hour + m * Instant.minute) := by
    have hlen := Date.twentyEight_le_daysInMonth y month
    have hfit : 9 + k ≤ Date.daysInMonth y month := le_trans (by omega) hlen
    have hin : Date.ofDay (n + k) = ⟨y, month, 9 + k⟩ := by
      rw [Date.ofDay_add (by rw [hdate]; exact hfit), hdate]
    exact fires_minute hh hm (by rwa [hin]) (by rw [hin, hweekday]; exact hday _) hhour hmin
  simp only [hfifteenth, Instant.day, Instant.hour, Instant.minute] at hfrom hto
  -- where the 15th comes up late in the window, the days before it are inside, else those after it
  by_cases hlate : s + 360 * 86400 ≤ (n + 6) * 86400 + (h * 3600 + m * 60)
  · obtain ⟨k, hk, hweekday⟩ := Date.exists_weekday n hw
    refine ⟨_, ?_, ?_, hfires k (by omega) hweekday⟩ <;>
      simp only [windowDays, Instant.day, Instant.hour, Instant.minute] <;> omega
  · obtain ⟨k, hk, hweekday⟩ := Date.exists_weekday (n + 6) hw
    have hweekday' : Date.weekday (n + ((6 + k : Nat) : Int)) = w := by
      rw [Nat.cast_add, ← add_assoc]
      exact hweekday
    refine ⟨_, ?_, ?_, hfires (6 + k) (by omega) hweekday'⟩ <;>
      simp only [windowDays, Instant.day, Instant.hour, Instant.minute] <;> omega

/-! ### When a search finds nothing -/

/-- When only the day of the month is restricted, it decides alone. -/
theorem admitsDay_of_dayOfMonth (hdow : e.dayOfWeekRestricted = false)
    (hdom : e.dayOfMonthRestricted = true) (d w : Nat) :
    e.admitsDay d w = e.dayOfMonth.contains d := by
  simp only [admitsDay, hdow, hdom]

/-- A date that an expression admits and that no common year has is 29 February. -/
theorem leapDay_of_admitted {d : Date} (hd : d.Valid) (hcommon : ¬ e.AdmitsCommonDate)
    (hmonth : e.month.contains d.month = true) (hdom : e.dayOfMonth.contains d.dayOfMonth = true) :
    d.month = 2 ∧ d.dayOfMonth = 29 := by
  obtain ⟨h₁, h₁₂, hlo, hhi⟩ := hd
  by_contra hother
  -- any other date is there in the year 1, too
  refine hcommon ⟨⟨1, d.month, d.dayOfMonth⟩, ⟨h₁, h₁₂, hlo, ?_⟩, Date.isLeapYear_one, hmonth, hdom⟩
  by_cases hfeb : d.month = 2
  · have hle : d.dayOfMonth ≤ 29 := by
      rw [hfeb, Date.daysInMonth_february] at hhi
      split at hhi <;> omega
    have hne : d.dayOfMonth ≠ 29 := fun h => hother ⟨hfeb, h⟩
    have hlen : Date.daysInMonth 1 d.month = 28 := by rw [hfeb]; rfl
    simp only [hlen]
    omega
  · simpa [Date.daysInMonth, hfeb] using hhi

/-- **When a window has no fire**: only the day of the month is restricted, no date of a common year
is admitted, and no fire of a 29 February lies in the window. -/
theorem firesIn_eq_empty_iff_leapDay {text : String} (hparse : parse text = .ok e) (s : Int) :
    e.firesIn s (s + windowDays * Instant.day) = ∅ ↔
      e.dayOfWeekRestricted = false ∧ e.dayOfMonthRestricted = true ∧ ¬ e.AdmitsCommonDate ∧
        (¬ e.AdmitsLeapDay ∨ ∀ t, s ≤ t → t < s + windowDays * Instant.day →
          t % Instant.minute = 0 →
          (Civil.ofInstant t).date.month = 2 → (Civil.ofInstant t).date.dayOfMonth = 29 →
          ¬ (e.hour.contains (Civil.ofInstant t).hour = true ∧
            e.minute.contains (Civil.ofInstant t).minute = true)) := by
  constructor
  · intro hempty
    have hdow : e.dayOfWeekRestricted = false := by
      by_contra hdow
      obtain ⟨w, hw, hc⟩ := exists_dayOfWeek_of_parse hparse
      refine (nonempty_firesIn_of_weekday hparse hw (fun d => ?_) s).ne_empty hempty
      simp only [Bool.not_eq_false] at hdow
      cases hdom : e.dayOfMonthRestricted <;> simp [admitsDay, hdow, hdom, hc]
    have hdom : e.dayOfMonthRestricted = true := by
      by_contra hdom
      obtain ⟨m, ⟨hlo, hhi⟩, hc⟩ := exists_month_of_parse hparse
      simp only [Bool.not_eq_true] at hdom
      have hvalid : (⟨1, m, 1⟩ : Date).Valid :=
        ⟨hlo, hhi, Nat.le_refl 1, (by decide : 1 ≤ 28).trans (Date.twentyEight_le_daysInMonth 1 m)⟩
      refine (nonempty_firesIn_of_date hparse hvalid Date.isLeapYear_one hc (fun w => ?_)
        s).ne_empty hempty
      simp only [admitsDay, hdow, hdom]
    refine ⟨hdow, hdom, ?_, ?_⟩
    · rintro ⟨d, hd, hcommon, hmonth, hday⟩
      refine (nonempty_firesIn_of_date hparse hd hcommon hmonth (fun w => ?_) s).ne_empty hempty
      rwa [admitsDay_of_dayOfMonth hdow hdom]
    · rw [or_iff_not_imp_left, not_not]
      rintro ⟨hfeb, hday⟩ t hfrom hto hmod hmonth hdate ⟨hhour, hmin⟩
      refine firesIn_eq_empty_iff.1 hempty t hfrom hto ⟨hmod, ?_⟩
      simp [matchesAt, admits, admitsDay_of_dayOfMonth hdow hdom, hmonth, hdate, hfeb, hday, hhour,
        hmin]
  · rintro ⟨hdow, hdom, hcommon, hleap⟩
    rw [firesIn_eq_empty_iff]
    rintro t hfrom hto ⟨hmod, hmatch⟩
    simp only [matchesAt, admits, admitsDay_of_dayOfMonth hdow hdom, Bool.and_eq_true] at hmatch
    obtain ⟨⟨⟨hmonth, hday⟩, hhour⟩, hmin⟩ := hmatch
    obtain ⟨hfeb, hlast⟩ := leapDay_of_admitted (Date.valid_ofDay _) hcommon hmonth hday
    refine hleap.elim (fun h => h ⟨?_, ?_⟩) fun h => h t hfrom hto hmod hfeb hlast ⟨hhour, hmin⟩
    · rwa [← hfeb]
    · rwa [← hlast]

/-- In a window of representable time the next fire is the earliest one of the window, and there is
none only when the window has no fire. -/
theorem next_reports {text : String} (hparse : parse text = .ok e) {after : Int}
    (hstart : Instant.Representable (firstMinute after))
    (hlimit : Instant.Representable (firstMinute after + windowDays * Instant.day)) :
    e.next after ≠ .error .outOfTime ∧
      e.Reports (firstMinute after) (firstMinute after + windowDays * Instant.day)
        (e.next after) := by
  have hmod : firstMinute after % Instant.minute = 0 := by
    simp only [firstMinute, Instant.minute]
    omega
  have hwhole : (firstMinute after + windowDays * Instant.day) % Instant.minute = 0 := by
    simp only [windowDays, Instant.day, Instant.minute] at hmod ⊢
    omega
  have hnext : e.next after =
      e.search (firstMinute after + windowDays * Instant.day) (firstMinute after) := by
    simp only [next, hstart, hlimit, not_true, if_false]
  rw [hnext]
  exact ⟨search_ne_outOfTime hparse hstart.1 hlimit.2 hmod,
    search_reports hlimit.2 hwhole hstart.1 hmod⟩

/-- A search finds nothing exactly when its window has no fire. -/
theorem next_eq_noMatch_iff_firesIn {text : String} (hparse : parse text = .ok e) {after : Int}
    (hstart : Instant.Representable (firstMinute after))
    (hlimit : Instant.Representable (firstMinute after + windowDays * Instant.day)) :
    e.next after = .error .noMatch ↔
      e.firesIn (firstMinute after) (firstMinute after + windowDays * Instant.day) = ∅ := by
  obtain ⟨hne, hreports⟩ := next_reports hparse hstart hlimit
  cases hnext : e.next after with
  | ok t =>
    rw [hnext] at hreports
    exact iff_of_false (by simp) (Set.nonempty_of_mem hreports.1).ne_empty
  | error failure =>
    rw [hnext] at hne hreports
    cases failure with
    | noMatch => exact iff_of_true rfl hreports
    | outOfTime => exact absurd rfl hne

/-- What matches on a date of a common year, by the day of the month alone, admits that date. -/
theorem admitsCommonDate_of_matchesAt (hdow : e.dayOfWeekRestricted = false)
    (hdom : e.dayOfMonthRestricted = true) {t : Int}
    (hcommon : Date.isLeapYear (Civil.ofInstant t).date.year = false)
    (hmatch : e.matchesAt t = true) : e.AdmitsCommonDate := by
  simp only [matchesAt, admits, admitsDay_of_dayOfMonth hdow hdom, Bool.and_eq_true] at hmatch
  exact ⟨_, Date.valid_ofDay _, hcommon, hmatch.1.1.1, hmatch.1.1.2⟩

/-- **When a search finds nothing.**  For an expression that was read and an instant, possibly with
a fraction of a second, let `start` be the first whole minute later than it, and let the window of
366 days from there end in representable time.  Then no fire is found exactly when the word for the
day of the week is a bare star, that for the day of the month is not, no date of a common year is
admitted, and 29 February is not admitted or no admitted minute of a 29 February lies in the window.
In particular an expression that matches at some instant of a common year always finds a fire. -/
theorem next_eq_noMatch_iff {text : String} (hparse : parse text = .ok e) {after start : Int}
    {nanos : Nat} (hnanos : nanos < 10 ^ 9) (hafter : Instant.Representable after)
    (hstart : IsLeast {t : Int | t % Instant.minute = 0 ∧
      after * 10 ^ 9 + nanos < t * 10 ^ 9} start)
    (hlimit : Instant.Representable (start + windowDays * Instant.day)) :
    (e.next after = .error .noMatch ↔
      (Text.words text)[4]? = some "*" ∧ (Text.words text)[2]? ≠ some "*" ∧
        ¬ e.AdmitsCommonDate ∧
        (¬ e.AdmitsLeapDay ∨ ∀ t, start ≤ t → t < start + windowDays * Instant.day →
          t % Instant.minute = 0 →
          (Civil.ofInstant t).date.month = 2 → (Civil.ofInstant t).date.dayOfMonth = 29 →
          ¬ (e.hour.contains (Civil.ofInstant t).hour = true ∧
            e.minute.contains (Civil.ofInstant t).minute = true))) ∧
    ((∃ t, Date.isLeapYear (Civil.ofInstant t).date.year = false ∧ e.matchesAt t = true) →
      ∃ t, e.next after = .ok t) := by
  obtain rfl := firstMinute_eq_of_isLeast hnanos hstart
  have hrep : Instant.Representable (firstMinute after) := by
    have := lt_firstMinute after
    simp only [Instant.Representable, windowDays, Instant.day] at *
    omega
  obtain ⟨mi, ho, dm, mo, dw, hwords, -, -, -, -, -, hdom, hdow⟩ := of_parse hparse
  have hiff := (next_eq_noMatch_iff_firesIn hparse hrep hlimit).trans
    (firesIn_eq_empty_iff_leapDay hparse (firstMinute after))
  refine ⟨hiff.trans ?_, ?_⟩
  · simp [hwords, hdow, hdom]
  · rintro ⟨t, hcommon, hmatch⟩
    obtain ⟨hne, -⟩ := next_reports hparse hrep hlimit
    cases hnext : e.next after with
    | ok u => exact ⟨u, rfl⟩
    | error failure =>
      cases failure with
      | outOfTime => exact absurd hnext hne
      | noMatch =>
        obtain ⟨hdow, hdom, hnone, -⟩ := hiff.1 hnext
        exact absurd (admitsCommonDate_of_matchesAt hdow hdom hcommon hmatch) hnone

/-- A job of the 29 February, looked at as it fires in the leap year 1972: the window after it ends
before the next leap year. -/
theorem next_eq_noMatch_iff_leap_day :
    ∃ e, parse "0 0 29 2 *" = .ok e ∧ 0 < 10 ^ 9 ∧ Instant.Representable 68169600 ∧
      IsLeast {t : Int | t % Instant.minute = 0 ∧
        68169600 * 10 ^ 9 + ((0 : Nat) : Int) < t * 10 ^ 9} 68169660 ∧
      Instant.Representable (68169660 + windowDays * Instant.day) ∧
      (e.next 68169600 = .error .noMatch ↔
        (Text.words "0 0 29 2 *")[4]? = some "*" ∧ (Text.words "0 0 29 2 *")[2]? ≠ some "*" ∧
          ¬ e.AdmitsCommonDate ∧
          (¬ e.AdmitsLeapDay ∨ ∀ t, 68169660 ≤ t → t < 68169660 + windowDays * Instant.day →
            t % Instant.minute = 0 →
            (Civil.ofInstant t).date.month = 2 → (Civil.ofInstant t).date.dayOfMonth = 29 →
            ¬ (e.hour.contains (Civil.ofInstant t).hour = true ∧
              e.minute.contains (Civil.ofInstant t).minute = true))) ∧
      ((∃ t, Date.isLeapYear (Civil.ofInstant t).date.year = false ∧ e.matchesAt t = true) →
        ∃ t, e.next 68169600 = .ok t) := by
  have hstart : IsLeast {t : Int | t % Instant.minute = 0 ∧
      68169600 * 10 ^ 9 + ((0 : Nat) : Int) < t * 10 ^ 9} 68169660 := by
    refine ⟨⟨by decide, by decide⟩, ?_⟩
    rintro t ⟨hmod, hlt⟩
    simp only [Instant.minute] at hmod
    omega
  obtain ⟨e, hparse⟩ : ∃ e, parse "0 0 29 2 *" = .ok e := ⟨_, rfl⟩
  exact ⟨e, hparse, by decide, by decide, hstart, by decide,
    next_eq_noMatch_iff hparse (by decide) (by decide) hstart (by decide)⟩

end Cron.Expression

end Timetable
