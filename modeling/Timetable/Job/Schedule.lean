/-
**When a job fires next.**

A job with a cron expression fires at the next minute of the expression.  Any other job fires at a
fixed distance from a given fire, so that it drifts with its fires and is not drawn back to the
clock.

Main definitions:

* `FireFailure` — why there is no next fire;
* `Job.expression?` — the cron expression that a job goes by, if any;
* `Job.nextFire` — **the next fire of a job after an instant**.
-/

import Timetable.Job.Basic

set_option autoImplicit false
set_option relaxedAutoImplicit false

namespace Timetable

/-- Why there is no next fire. -/
inductive FireFailure where
  /-- The definition of the job is at fault. -/
  | definition (e : DefinitionError)
  /-- The search for a fire leaves the representable stretch of time. -/
  | outOfTime
  deriving Repr, DecidableEq

/-- The failure of a search, seen from the job. -/
def FireFailure.ofSearch : Cron.SearchFailure → FireFailure
  | .noMatch => definition .noMatch
  | .outOfTime => outOfTime

namespace Job

/-- The cron expression that a job goes by: the stored one, unless it is blank. -/
def expression? (j : Job) : Option String :=
  j.cronExpression.filter fun text => Text.trim text != ""

/-- The next fire of a cron expression after an instant. -/
def nextCronFire (text : String) (after : Int) : Except FireFailure Int :=
  if ¬ Instant.Representable after then .error (.definition .noMatch)
  else
    match Cron.Expression.parse text with
    | .error e => .error (.definition (.badExpression e))
    | .ok e => (e.next after).mapError FireFailure.ofSearch

/-- The fire at a distance from another one, while it fits in 64 bits. -/
def nextIntervalFire (seconds : Option Int) (after : Int) : Except FireFailure Int :=
  match seconds with
  | some s =>
    if 0 < s ∧ after + s ≤ Text.int64Max then .ok (after + s)
    else .error (.definition .noSchedule)
  | none => .error (.definition .noSchedule)

/-- **The next fire of a job after an instant.** -/
def nextFire (j : Job) (after : Int) : Except FireFailure Int :=
  match j.expression? with
  | some text => nextCronFire text after
  | none => nextIntervalFire j.intervalSeconds after

end Job

end Timetable
