/-
**The search for a fire finds the earliest one.**

The search for the next fire of a cron expression jumps over months, days and hours that the
expression does not admit.  This module shows that no jump passes over a fire, so that the search
gives the answer of the plain one that looks at every minute of its window.

The jump to the next hour is the one that could leave the representable stretch of time.  It never
does: the last hour of that stretch lies on a 31 December, and a window of 366 days that reaches
into it contains the 31 December before and the same day of the week a week before, one of which
the expression admits as well, with all its hours.

Main definitions:

* `Cron.Expression.firesIn` — the fires of an expression between two instants;
* `Cron.Expression.Reports` — what an answer of the search says about them.

Main results:

* `Cron.Expression.search_reports` — every answer of the search is right;
* `Cron.Expression.search_ne_outOfTime` — a search inside its window stays in representable time;
* `Cron.Expression.lt_of_next` — the next fire is a later one;
* `Cron.Expression.next_earliest` — **the next fire is the earliest one of the window, and there is
  none exactly when the window has no fire**.
-/

import Mathlib.Order.Bounds.Basic
import Timetable.Cron.Search
import Timetable.Proofs.Calendar
import Timetable.Proofs.Cron.Reading

set_option autoImplicit false
set_option relaxedAutoImplicit false

namespace Timetable.Cron

/-! ### Jumps stay in the month, day and hour they leave -/

theorem month_eq_of_lt_nextMonthStart {t v : Int} (h₁ : t ≤ v) (h₂ : v < nextMonthStart t) :
    (Civil.ofInstant v).date.month = (Civil.ofInstant t).date.month := by
  obtain ⟨k, hk⟩ : ∃ k : Nat, v / Instant.day = t / Instant.day + k :=
    ⟨(v / Instant.day - t / Instant.day).toNat, by simp only [Instant.day]; omega⟩
  have hfit : (Date.ofDay (t / Instant.day)).dayOfMonth + k ≤
      Date.daysInMonth (Date.ofDay (t / Instant.day)).year
        (Date.ofDay (t / Instant.day)).month := by
    have hvalid := (Date.valid_ofDay (t / Instant.day)).2.2.2
    simp only [nextMonthStart, Instant.day] at h₂ hk hvalid ⊢
    omega
  simp only [Civil.ofInstant, hk, Date.ofDay_add hfit]

theorem day_eq_of_lt_nextDayStart {t v : Int} (h₁ : t ≤ v) (h₂ : v < nextDayStart t) :
    v / Instant.day = t / Instant.day := by
  simp only [nextDayStart, Instant.day] at h₂ ⊢
  omega

/-- A jump from a whole minute to the next hour ends on the hour. -/
theorem nextHourStart_eq {t : Int} (ht : t % Instant.minute = 0) :
    nextHourStart t = (t / Instant.hour + 1) * Instant.hour := by
  simp only [nextHourStart, Civil.ofInstant, Instant.day, Instant.hour, Instant.minute] at ht ⊢
  omega

theorem hour_eq_of_lt_nextHourStart {t v : Int} (ht : t % Instant.minute = 0) (h₁ : t ≤ v)
    (h₂ : v < nextHourStart t) : (Civil.ofInstant v).hour = (Civil.ofInstant t).hour := by
  rw [nextHourStart_eq ht] at h₂
  simp only [Civil.ofInstant, Instant.day, Instant.hour] at h₂ ⊢
  omega

theorem nextMonthStart_mod (t : Int) : nextMonthStart t % Instant.minute = 0 := by
  simp only [nextMonthStart, Instant.day, Instant.minute]
  omega

theorem nextDayStart_mod (t : Int) : nextDayStart t % Instant.minute = 0 := by
  simp only [nextDayStart, Instant.day, Instant.minute]
  omega

theorem nextHourStart_mod {t : Int} (ht : t % Instant.minute = 0) :
    nextHourStart t % Instant.minute = 0 := by
  simp only [nextHourStart, Instant.minute] at ht ⊢
  omega

/-- The civil reading of a minute of a day. -/
theorem ofInstant_minute (n : Int) {h m : Nat} (hh : h ≤ 23) (hm : m ≤ 59) :
    Civil.ofInstant (n * Instant.day + h * Instant.hour + m * Instant.minute) =
      ⟨Date.ofDay n, Date.weekday n, h, m, 0⟩ := by
  have hday : (n * 86400 + (h : Int) * 3600 + (m : Int) * 60) / 86400 = n := by omega
  have hsec :
      ((n * 86400 + (h : Int) * 3600 + (m : Int) * 60) % 86400).toNat = h * 3600 + m * 60 := by
    omega
  simp only [Civil.ofInstant, Instant.day, Instant.hour, Instant.minute, hday, hsec]
  congr 1 <;> omega

namespace Expression

/-! ### Fires between two instants -/

/-- The fires of an expression from one instant up to another. -/
def firesIn (e : Expression) (a b : Int) : Set Int := {t | a ≤ t ∧ t < b ∧ e.Fires t}

theorem firesIn_eq_empty_iff {e : Expression} {a b : Int} :
    e.firesIn a b = ∅ ↔ ∀ v, a ≤ v → v < b → ¬ e.Fires v := by
  rw [Set.eq_empty_iff_forall_notMem]
  exact ⟨fun h v h₁ h₂ hv => h v ⟨h₁, h₂, hv⟩, fun h v hv => h v hv.1 hv.2.1 hv.2.2⟩

/-- Two stretches without fires that meet are one. -/
theorem firesIn_append {e : Expression} {a b c : Int} (h₁ : e.firesIn a b = ∅)
    (h₂ : e.firesIn b c = ∅) : e.firesIn a c = ∅ := by
  rw [firesIn_eq_empty_iff] at h₁ h₂ ⊢
  intro v hv hvc
  rcases lt_or_ge v b with h | h
  · exact h₁ v hv h
  · exact h₂ v h hvc

variable {e : Expression} {t : Int}

/-- No fire lies before the next month when the month is not admitted. -/
theorem firesIn_nextMonthStart
    (h : e.month.contains (Civil.ofInstant t).date.month = false) :
    e.firesIn t (nextMonthStart t) = ∅ := by
  rw [firesIn_eq_empty_iff]
  rintro v hv₁ hv₂ ⟨-, hv⟩
  rw [matchesAt, admits, month_eq_of_lt_nextMonthStart hv₁ hv₂, h] at hv
  simp at hv

/-- No fire lies before the next day when the day is not admitted. -/
theorem firesIn_nextDayStart
    (h : e.admitsDay (Civil.ofInstant t).date.dayOfMonth (Civil.ofInstant t).weekday = false) :
    e.firesIn t (nextDayStart t) = ∅ := by
  rw [firesIn_eq_empty_iff]
  rintro v hv₁ hv₂ ⟨-, hv⟩
  simp only [Civil.ofInstant] at h
  simp [matchesAt, admits, Civil.ofInstant, day_eq_of_lt_nextDayStart hv₁ hv₂, h] at hv

/-- No fire lies before the next hour when the hour is not admitted. -/
theorem firesIn_nextHourStart (ht : t % Instant.minute = 0)
    (h : e.hour.contains (Civil.ofInstant t).hour = false) :
    e.firesIn t (nextHourStart t) = ∅ := by
  rw [firesIn_eq_empty_iff]
  rintro v hv₁ hv₂ ⟨-, hv⟩
  rw [matchesAt, admits, hour_eq_of_lt_nextHourStart ht hv₁ hv₂, h] at hv
  simp at hv

/-- No fire lies before the next minute when the minute is not admitted. -/
theorem firesIn_add_minute (ht : t % Instant.minute = 0)
    (h : e.minute.contains (Civil.ofInstant t).minute = false) :
    e.firesIn t (t + Instant.minute) = ∅ := by
  rw [firesIn_eq_empty_iff]
  rintro v hv₁ hv₂ ⟨hmod, hv⟩
  obtain rfl : v = t := by simp only [Instant.minute] at *; omega
  rw [matchesAt, admits, h] at hv
  simp at hv

/-! ### What an answer says -/

/-- The search is stuck at the last hour of representable time: month and day are admitted, the hour
is not, and there is no next one. -/
def StuckAt (e : Expression) (v : Int) : Prop :=
  e.month.contains (Civil.ofInstant v).date.month = true ∧
    e.admitsDay (Civil.ofInstant v).date.dayOfMonth (Civil.ofInstant v).weekday = true ∧
    v % Instant.minute = 0 ∧ ¬ Instant.Representable (nextHourStart v)

/-- **What an answer says about the fires of a stretch of time**: a fire is the earliest one, no
match means that there is none, and time can only run out where the search is stuck. -/
def Reports (e : Expression) (a b : Int) : Except SearchFailure Int → Prop
  | .ok u => IsLeast (e.firesIn a b) u
  | .error .noMatch => e.firesIn a b = ∅
  | .error .outOfTime => ∃ v, a ≤ v ∧ v < b ∧ e.firesIn a v = ∅ ∧ e.StuckAt v

/-- An answer about a stretch is one about a longer stretch when the part in front has no fire. -/
theorem Reports.extend {a a' b : Int} {r : Except SearchFailure Int} (h : e.Reports a' b r)
    (hle : a ≤ a') (hskip : e.firesIn a a' = ∅) : e.Reports a b r := by
  match r, h with
  | .ok u, ⟨⟨hu₁, hu₂, hfire⟩, hleast⟩ =>
    refine ⟨⟨le_trans hle hu₁, hu₂, hfire⟩, fun v hv => ?_⟩
    rcases lt_or_ge v a' with hlt | hge
    · exact absurd hv.2.2 (firesIn_eq_empty_iff.1 hskip v hv.1 hlt)
    · exact hleast ⟨hge, hv.2⟩
  | .error .noMatch, h => exact firesIn_append hskip h
  | .error .outOfTime, ⟨v, hv₁, hv₂, hnone, hstuck⟩ =>
    exact ⟨v, le_trans hle hv₁, hv₂, firesIn_append hskip hnone, hstuck⟩

/-- A jump past the end of the stretch leaves no fire behind in it. -/
theorem firesIn_of_le {a b c : Int} (hle : b ≤ c) (h : e.firesIn a c = ∅) : e.firesIn a b = ∅ := by
  rw [firesIn_eq_empty_iff] at h ⊢
  exact fun v hv₁ hv₂ => h v hv₁ (lt_of_lt_of_le hv₂ hle)

/-- **Every answer of the search is right**, between any whole minutes of representable time. -/
theorem search_reports {limit : Int} (hlimit : limit ≤ Instant.latest)
    (hwhole : limit % Instant.minute = 0) (hearly : Instant.earliest ≤ t)
    (ht : t % Instant.minute = 0) :
    e.Reports t limit (e.search limit t) := by
  fun_induction e.search limit t with
  | case1 t hlt c hmonth hrep ih =>
    exact (ih hrep.1 (nextMonthStart_mod t)).extend (lt_nextMonthStart t).le
      (firesIn_nextMonthStart hmonth)
  | case2 t hlt c hmonth hrep =>
    -- the jump leaves representable time, and with it the window
    have hend : limit ≤ nextMonthStart t := by
      have := lt_nextMonthStart t
      simp only [Instant.Representable] at hrep
      omega
    exact firesIn_of_le hend (firesIn_nextMonthStart hmonth)
  | case3 t hlt c hmonth hday hrep ih =>
    exact (ih hrep.1 (nextDayStart_mod t)).extend (lt_nextDayStart t).le (firesIn_nextDayStart hday)
  | case4 t hlt c hmonth hday hrep =>
    have hend : limit ≤ nextDayStart t := by
      have := lt_nextDayStart t
      simp only [Instant.Representable] at hrep
      omega
    exact firesIn_of_le hend (firesIn_nextDayStart hday)
  | case5 t hlt c hmonth hday hhour hrep ih =>
    exact (ih hrep.1 (nextHourStart_mod ht)).extend (lt_nextHourStart t).le
      (firesIn_nextHourStart ht hhour)
  | case6 t hlt c hmonth hday hhour hrep =>
    exact ⟨t, le_refl t, hlt, firesIn_eq_empty_iff.2 fun v h₁ h₂ => by omega,
      by simpa using hmonth, by simpa using hday, ht, hrep⟩
  | case7 t hlt c hmonth hday hhour hmin hrep ih =>
    have hmod : (t + Instant.minute) % Instant.minute = 0 := by
      simp only [Instant.minute] at ht ⊢
      omega
    exact (ih hrep.1 hmod).extend (lt_add_minute t).le (firesIn_add_minute ht hmin)
  | case8 t hlt c hmonth hday hhour hmin hrep =>
    -- the next minute is at most the end of the window
    refine absurd ⟨?_, ?_⟩ hrep <;>
      simp only [Instant.minute, Instant.earliest, Instant.latest] at * <;> omega
  | case9 t hlt c hmonth hday hhour hmin =>
    refine ⟨⟨le_refl t, hlt, ht, ?_⟩, fun v hv => hv.1⟩
    simp only [Bool.not_eq_false] at hmonth hday hhour hmin
    simp [matchesAt, admits, c, hmonth, hday, hhour, hmin]
  | case10 t hlt =>
    exact firesIn_eq_empty_iff.2 fun v h₁ h₂ => by omega

/-! ### The search never runs out of time -/

/-- The day number of the last day of representable time, 31 December 262142. -/
def lastDay : Int := 95026236

theorem ofDay_lastDay : Date.ofDay lastDay = ⟨262142, 12, 31⟩ := by decide

theorem ofDay_year_before_lastDay : Date.ofDay (lastDay - 365) = ⟨262141, 12, 31⟩ := by decide

theorem ofDay_week_before_lastDay : Date.ofDay (lastDay - 7) = ⟨262142, 12, 24⟩ := by decide

/-- A search is stuck in the last hour of the last day only. -/
theorem day_of_stuckAt (hlate : t ≤ Instant.latest) (hearly : Instant.earliest ≤ t)
    (h : e.StuckAt t) : t / Instant.day = lastDay := by
  obtain ⟨-, -, ht, hrep⟩ := h
  rw [nextHourStart_eq ht] at hrep
  simp only [Instant.Representable, Instant.hour, Instant.day, lastDay, Instant.earliest,
    Instant.latest] at *
  omega

/-- An expression that admits the last day of representable time admits one of two days before it:
the same date a year before, or the same day of the week a week before. -/
theorem exists_admitted_before_lastDay
    (hmonth : e.month.contains 12 = true) (hday : e.admitsDay 31 (Date.weekday lastDay) = true) :
    ∃ n, (n = lastDay - 365 ∨ n = lastDay - 7) ∧
      e.month.contains (Date.ofDay n).month = true ∧
      e.admitsDay (Date.ofDay n).dayOfMonth (Date.weekday n) = true := by
  have hweek : Date.weekday (lastDay - 7) = Date.weekday lastDay := by decide
  by_cases hdom : e.admitsDay 31 (Date.weekday (lastDay - 365)) = true
  · exact ⟨_, Or.inl rfl, by rw [ofDay_year_before_lastDay]; exact ⟨hmonth, hdom⟩⟩
  · have hdow : e.admitsDay 24 (Date.weekday lastDay) = true := by
      unfold admitsDay at hday hdom ⊢
      split at hday <;> simp_all
    exact ⟨_, Or.inr rfl, by rw [ofDay_week_before_lastDay, hweek]; exact ⟨hmonth, hdow⟩⟩

/-- **A search inside its window stays in representable time.** -/
theorem search_ne_outOfTime {text : String} (hparse : parse text = .ok e)
    (hstart : Instant.earliest ≤ t) (hlimit : t + windowDays * Instant.day ≤ Instant.latest)
    (ht : t % Instant.minute = 0) :
    e.search (t + windowDays * Instant.day) t ≠ .error .outOfTime := by
  intro hout
  have hwhole : (t + windowDays * Instant.day) % Instant.minute = 0 := by
    simp only [windowDays, Instant.day, Instant.minute] at ht ⊢
    omega
  have hrep := search_reports (e := e) hlimit hwhole hstart ht
  rw [hout] at hrep
  obtain ⟨v, hv₁, hv₂, hnone, hstuck⟩ := hrep
  have hlast : v / Instant.day = lastDay :=
    day_of_stuckAt (le_trans hv₂.le hlimit) (le_trans hstart hv₁) hstuck
  obtain ⟨hmonth, hday, -, -⟩ := hstuck
  simp only [Civil.ofInstant, hlast, ofDay_lastDay] at hmonth hday
  obtain ⟨n, hn, hmonth', hday'⟩ := exists_admitted_before_lastDay hmonth hday
  obtain ⟨h, hh, hhour⟩ := exists_hour_of_parse hparse
  obtain ⟨m, hm, hmin⟩ := exists_minute_of_parse hparse
  -- the earlier day lies in the window as a whole, so the search would have ended there
  have hfire : e.Fires (n * Instant.day + h * Instant.hour + m * Instant.minute) := by
    refine ⟨?_, ?_⟩
    · simp only [Instant.day, Instant.hour, Instant.minute]
      omega
    · rw [matchesAt, ofInstant_minute n hh hm, admits]
      simp [hmonth', hday', hhour, hmin]
  refine firesIn_eq_empty_iff.1 hnone _ ?_ ?_ hfire <;>
    simp only [windowDays, lastDay, Instant.day, Instant.hour, Instant.minute,
      Instant.latest] at * <;>
    omega

/-! ### The next fire -/

/-- The first whole minute after an instant, also when the instant has a fraction of a second. -/
theorem firstMinute_eq_of_isLeast {after start : Int} {nanos : Nat} (hnanos : nanos < 10 ^ 9)
    (hstart : IsLeast {t : Int | t % Instant.minute = 0 ∧
      after * 10 ^ 9 + nanos < t * 10 ^ 9} start) : firstMinute after = start := by
  obtain ⟨⟨hmod, hlt⟩, hleast⟩ := hstart
  have hmem : firstMinute after ∈
      {t : Int | t % Instant.minute = 0 ∧ after * 10 ^ 9 + nanos < t * 10 ^ 9} := by
    have := lt_firstMinute after
    refine ⟨?_, ?_⟩
    · simp only [firstMinute, Instant.minute]
      omega
    · omega
  have hle := hleast hmem
  simp only [firstMinute, Instant.minute] at hmod hlt hle ⊢
  omega

/-- The next fire is later than the instant. -/
theorem lt_of_next {after t : Int} (h : e.next after = .ok t) : after < t := by
  unfold next at h
  simp only at h
  split at h
  · cases h
  · rename_i hrep
    split at h
    · cases h
    · rename_i hlimit
      have hmod : firstMinute after % Instant.minute = 0 := by
        simp only [firstMinute, Instant.minute]
        omega
      have hwhole : (firstMinute after + windowDays * Instant.day) % Instant.minute = 0 := by
        simp only [windowDays, Instant.day, Instant.minute] at hmod ⊢
        omega
      have hreports := search_reports (e := e) (not_not.1 hlimit).2 hwhole (not_not.1 hrep).1 hmod
      rw [h] at hreports
      have hle : firstMinute after ≤ t := hreports.1.1
      exact lt_of_lt_of_le (lt_firstMinute after) hle

/-- **The next fire.**  For an expression that was read and an instant, possibly with a fraction of
a second, let `start` be the first whole minute later than it, and let the window of 366 days from
there end in representable time.  Then the search never leaves representable time; it answers with
an instant exactly when that is the earliest whole minute of the window that matches; and it finds
no match exactly when no whole minute of the window matches. -/
theorem next_earliest {text : String} (hparse : parse text = .ok e) {after start : Int}
    {nanos : Nat} (hnanos : nanos < 10 ^ 9) (hafter : Instant.Representable after)
    (hstart : IsLeast {t : Int | t % Instant.minute = 0 ∧
      after * 10 ^ 9 + nanos < t * 10 ^ 9} start)
    (hlimit : Instant.Representable (start + windowDays * Instant.day)) :
    e.next after ≠ .error .outOfTime ∧
      (∀ t, e.next after = .ok t ↔ IsLeast {t | start ≤ t ∧ t < start + windowDays * Instant.day ∧
        t % Instant.minute = 0 ∧ e.matchesAt t = true} t) ∧
      (e.next after = .error .noMatch ↔ ∀ t, start ≤ t → t < start + windowDays * Instant.day →
        t % Instant.minute = 0 → e.matchesAt t = false) := by
  have hfirst := firstMinute_eq_of_isLeast hnanos hstart
  have hrep : Instant.Representable start := by
    have := lt_firstMinute after
    simp only [Instant.Representable, windowDays, Instant.day] at *
    omega
  have hnext : e.next after = e.search (start + windowDays * Instant.day) start := by
    simp only [next, hfirst, hrep, hlimit, not_true, if_false]
  have hwhole : (start + windowDays * Instant.day) % Instant.minute = 0 := by
    have := hstart.1.1
    simp only [windowDays, Instant.day, Instant.minute] at this ⊢
    omega
  have hreports := search_reports (e := e) hlimit.2 hwhole hrep.1 hstart.1.1
  have hne := search_ne_outOfTime hparse hrep.1 hlimit.2 hstart.1.1
  rw [hnext]
  cases hs : e.search (start + windowDays * Instant.day) start with
  | ok u =>
    have hleast : IsLeast (e.firesIn start (start + windowDays * Instant.day)) u := by
      rw [hs] at hreports
      exact hreports
    refine ⟨by simp, fun t => ⟨fun h => ?_, fun h => ?_⟩, ?_⟩
    · cases h
      exact hleast
    · rw [h.unique hleast]
    · refine iff_of_false (by simp) fun hnone => ?_
      have := hnone u hleast.1.1 hleast.1.2.1 hleast.1.2.2.1
      rw [hleast.1.2.2.2] at this
      cases this
  | error failure =>
    rw [hs] at hreports hne
    cases failure with
    | noMatch =>
      have hempty : e.firesIn start (start + windowDays * Instant.day) = ∅ := hreports
      refine ⟨by simp, fun t => iff_of_false (by simp) fun h => ?_, iff_of_true rfl ?_⟩
      · exact firesIn_eq_empty_iff.1 hempty t h.1.1 h.1.2.1 h.1.2.2
      · intro t h₁ h₂ hmod
        by_contra hmatch
        exact firesIn_eq_empty_iff.1 hempty t h₁ h₂ ⟨hmod, by simpa using hmatch⟩
    | outOfTime => exact absurd rfl hne

/-- The last window of representable time, from a moment between two minutes on, searched for a
29 February. -/
theorem next_earliest_leap_day_in_last_window :
    ∃ e, parse "0 0 29 2 *" = .ok e ∧ 500000000 < 10 ^ 9 ∧
      Instant.Representable 8210235254310 ∧
      IsLeast {t : Int | t % Instant.minute = 0 ∧
        8210235254310 * 10 ^ 9 + ((500000000 : Nat) : Int) < t * 10 ^ 9} 8210235254340 ∧
      Instant.Representable (8210235254340 + windowDays * Instant.day) ∧
      e.next 8210235254310 ≠ .error .outOfTime ∧
      (∀ t, e.next 8210235254310 = .ok t ↔ IsLeast {t | 8210235254340 ≤ t ∧
        t < 8210235254340 + windowDays * Instant.day ∧ t % Instant.minute = 0 ∧
        e.matchesAt t = true} t) ∧
      (e.next 8210235254310 = .error .noMatch ↔ ∀ t, 8210235254340 ≤ t →
        t < 8210235254340 + windowDays * Instant.day → t % Instant.minute = 0 →
        e.matchesAt t = false) := by
  have hstart : IsLeast {t : Int | t % Instant.minute = 0 ∧
      8210235254310 * 10 ^ 9 + ((500000000 : Nat) : Int) < t * 10 ^ 9} 8210235254340 := by
    refine ⟨⟨by decide, by decide⟩, ?_⟩
    rintro t ⟨hmod, hlt⟩
    simp only [Instant.minute] at hmod
    omega
  obtain ⟨e, hparse⟩ : ∃ e, parse "0 0 29 2 *" = .ok e := ⟨_, rfl⟩
  exact ⟨e, hparse, by decide, by decide, hstart, by decide,
    next_earliest hparse (by decide) (by decide) hstart (by decide)⟩

end Expression

end Timetable.Cron
