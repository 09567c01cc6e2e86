/-
**Specifications of jobs.**

A specification is what a person asks for: a name, a task, when it fires and under which settings.
It is checked before it is stored, and stored in a normal form: texts are trimmed, blank settings
and non-positive numbers are dropped, and the policy is written by its name.

Main definitions:

* `JobSpec` — a specification, `JobSpec.cron` and `JobSpec.interval` — the two plain ones;
* `JobSpec.validate` — **checking a specification**, with its normal form as the answer;
* `SpecError` — why a specification is refused, `SpecError.message` — its wording.
-/

import Timetable.Job.Basic

set_option autoImplicit false
set_option relaxedAutoImplicit false

namespace Timetable

/-! ### Specifications -/

/-- What a person asks for when saving a job. -/
structure JobSpec where
  /-- The name of the job. -/
  name : String
  /-- What is handed to the task runner. -/
  task : String
  /-- Whether the job is to fire at all. -/
  enabled : Bool
  /-- The fires, as a cron expression. -/
  cronExpression : Option String := none
  /-- The fires, as a distance in seconds. -/
  intervalSeconds : Option Int := none
  /-- The job is to fire only once. -/
  runOnce : Bool := false
  /-- The overlap policy. -/
  overlapPolicy : Option String := none
  /-- The deadline of a run, in seconds. -/
  timeoutSeconds : Option Int := none
  /-- The model that runs use. -/
  model : Option String := none
  /-- Who is told about finished runs. -/
  notifyTarget : Option String := none
  deriving Repr, DecidableEq

namespace JobSpec

/-- An enabled job that fires at the minutes of a cron expression. -/
def cron (name task expression : String) : JobSpec :=
  { name, task, enabled := true, cronExpression := some expression }

/-- An enabled job that fires every so many seconds. -/
def interval (name task : String) (seconds : Int) : JobSpec :=
  { name, task, enabled := true, intervalSeconds := some seconds }

end JobSpec

/-! ### Refusals -/

/-- Why a specification is refused. -/
inductive SpecError where
  /-- The name is blank. -/
  | missingName
  /-- The task is blank. -/
  | missingTask
  /-- Both a cron expression and an interval are given. -/
  | twoSchedules
  /-- The interval is too long. -/
  | intervalTooLong
  /-- The deadline is too long. -/
  | timeoutTooLong
  /-- The definition cannot be scheduled. -/
  | definition (e : DefinitionError)
  deriving Repr, DecidableEq

/-- The wording of a refusal. -/
def SpecError.message : SpecError → String
  | missingName => "Invalid job: missing name"
  | missingTask => "Invalid job: missing task"
  | twoSchedules => "Invalid job: provide only one of cron_expression or interval_seconds"
  | intervalTooLong =>
    "Invalid job: interval_seconds must be at most " ++ Text.natText Job.maxInterval
  | timeoutTooLong => "Invalid job: timeout_seconds must be at most " ++ Text.natText Job.maxTimeout
  | definition e => e.message

/-! ### Checking -/

namespace JobSpec

/-- A number of seconds, if it is positive. -/
def positive? (seconds : Option Int) : Option Int :=
  seconds.filter (0 < ·)

/-- The schedule is complete and possible: exactly one of an expression that can be read and an
interval that is not too long. -/
def checkSchedule (cronExpression : Option String) (intervalSeconds : Option Int) :
    Except SpecError Unit :=
  match cronExpression, intervalSeconds with
  | none, none => .error (.definition .noSchedule)
  | some _, some _ => .error .twoSchedules
  | some expression, none =>
    match Cron.Expression.parse expression with
    | .error e => .error (.definition (.badExpression e))
    | .ok _ => .ok ()
  | none, some seconds => if Job.maxInterval < seconds then .error .intervalTooLong else .ok ()

/-- **Checking a specification.**  The answer is its normal form, or the first thing found wrong:
the name, the task, the schedule, the deadline and the policy are looked at in this order. -/
def validate (s : JobSpec) : Except SpecError JobSpec := do
  let some name := Text.nonBlank? s.name | .error .missingName
  let some task := Text.nonBlank? s.task | .error .missingTask
  let cronExpression := s.cronExpression.bind Text.nonBlank?
  let intervalSeconds := positive? s.intervalSeconds
  checkSchedule cronExpression intervalSeconds
  let timeoutSeconds := positive? s.timeoutSeconds
  if timeoutSeconds.any (fun s : Int => Job.maxTimeout < s) then .error .timeoutTooLong
  let policy ← (OverlapPolicy.parse (s.overlapPolicy.getD "")).mapError SpecError.definition
  return {
    name, task, cronExpression, intervalSeconds, timeoutSeconds
    enabled := s.enabled
    runOnce := s.runOnce
    overlapPolicy := some policy.name
    model := s.model.bind Text.nonBlank?
    notifyTarget := s.notifyTarget.bind Text.nonBlank? }

-- the check is not to be computed whenever a goal about saving a job is looked at
attribute [irreducible] validate

end JobSpec

end Timetable
