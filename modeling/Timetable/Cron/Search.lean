/-
**The next fire of a cron expression.**

The fires of an expression are whole minutes.  The next one after an instant is looked for from the
first whole minute after it, through a window of 366 days, and the search jumps over what cannot
match: to the next month when the month is not admitted, to the next day when the day is not, to
the next hour when the hour is not.

Main definitions:

* `Cron.windowDays`, `Cron.firstMinute` — the extent of the search;
* `Cron.nextMonthStart`, `Cron.nextDayStart`, `Cron.nextHourStart` — the jumps;
* `Cron.Expression.search` — the search itself;
* `Cron.Expression.next` — **the next fire**, and `Cron.SearchFailure` — why there is none.

Main results:

* `Cron.lt_nextMonthStart`, `Cron.lt_nextDayStart`, `Cron.lt_nextHourStart` — every jump goes
  forward, so the search ends.
-/

import Timetable.Cron.Expression

set_option autoImplicit false
set_option relaxedAutoImplicit false

namespace Timetable.Cron

/-! ### The extent of the search -/

/-- How many days ahead a fire is looked for. -/
def windowDays : Int := 366

/-- The first whole minute after an instant. -/
def firstMinute (after : Int) : Int :=
  after / Instant.minute * Instant.minute + Instant.minute

theorem lt_firstMinute (after : Int) : after < firstMinute after := by
  simp only [firstMinute, Instant.minute]; omega

/-! ### Jumps -/

/-- Midnight of the first day of the month after that of an instant. -/
def nextMonthStart (t : Int) : Int :=
  let n := t / Instant.day
  let d := Date.ofDay n
  (n + ((Date.daysInMonth d.year d.month - d.dayOfMonth + 1 : Nat) : Int)) * Instant.day

/-- Midnight after an instant. -/
def nextDayStart (t : Int) : Int :=
  (t / Instant.day + 1) * Instant.day

/-- The full hour after a whole minute. -/
def nextHourStart (t : Int) : Int :=
  t + (60 - (Civil.ofInstant t).minute : Nat) * Instant.minute

theorem lt_nextMonthStart (t : Int) : t < nextMonthStart t := by
  simp only [nextMonthStart, Instant.day]; omega

theorem lt_nextDayStart (t : Int) : t < nextDayStart t := by
  simp only [nextDayStart, Instant.day]; omega

theorem lt_nextHourStart (t : Int) : t < nextHourStart t := by
  have h : (Civil.ofInstant t).minute < 60 := by
    simp only [Civil.ofInstant, Instant.day]; omega
  simp only [nextHourStart, Instant.minute]; omega

theorem lt_add_minute (t : Int) : t < t + Instant.minute := by
  simp only [Instant.minute]; omega

/-! ### The search -/

/-- Why a search gives no fire. -/
inductive SearchFailure where
  /-- No minute of the window matches. -/
  | noMatch
  /-- The window, or a step inside it, leaves the representable stretch of time. -/
  | outOfTime
  deriving Repr, DecidableEq

/-- **The search** for a fire in `[t, limit)`. -/
def Expression.search (e : Expression) (limit t : Int) : Except SearchFailure Int :=
  if t < limit then
    let c := Civil.ofInstant t
    if e.month.contains c.date.month = false then
      if Instant.Representable (nextMonthStart t) then e.search limit (nextMonthStart t)
      else .error .noMatch
    else if e.admitsDay c.date.dayOfMonth c.weekday = false then
      if Instant.Representable (nextDayStart t) then e.search limit (nextDayStart t)
      else .error .noMatch
    else if e.hour.contains c.hour = false then
      if Instant.Representable (nextHourStart t) then e.search limit (nextHourStart t)
      else .error .outOfTime
    else if e.minute.contains c.minute = false then
      if Instant.Representable (t + Instant.minute) then e.search limit (t + Instant.minute)
      else .error .outOfTime
    else .ok t
  else .error .noMatch
termination_by (limit - t).toNat
decreasing_by
  · have := lt_nextMonthStart t; omega
  · have := lt_nextDayStart t; omega
  · have := lt_nextHourStart t; omega
  · have := lt_add_minute t; omega

/-- **The next fire after an instant**: the earliest whole minute later than it that matches,
within the window. -/
def Expression.next (e : Expression) (after : Int) : Except SearchFailure Int :=
  let start := firstMinute after
  let limit := start + windowDays * Instant.day
  if ¬ Instant.Representable start then .error .noMatch
  else if ¬ Instant.Representable limit then .error .outOfTime
  else e.search limit start

end Timetable.Cron
