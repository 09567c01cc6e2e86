/-
**Jobs.**

A job is a task that is started over and over, at the minutes of a cron expression or at a fixed
distance from its previous fire.  What a job *is* — its definition — is written by people; when it
last fired and when it fires next is kept by the scheduler.

Main definitions:

* `Job` — a job as it is known to the scheduler;
* `OverlapPolicy` — what happens to a fire while an earlier run of the job is still going;
* `Job.timeout`, `Job.effectiveModel` — the settings that a run of the job works under;
* `DefinitionError` — why a definition cannot be scheduled, `DefinitionError.message` — its wording.

Main results:

* `Job.timeout_pos`, `Job.timeout_le` — a run has at least one second and at most a week.
-/

import Timetable.Cron.Search

set_option autoImplicit false
set_option relaxedAutoImplicit false

namespace Timetable

/-! ### Definitions that cannot be scheduled -/

/-- Why a definition cannot be scheduled. -/
inductive DefinitionError where
  /-- The cron expression cannot be read. -/
  | badExpression (e : Cron.ParseError)
  /-- The cron expression has no fire within the search window. -/
  | noMatch
  /-- There is neither a cron expression nor a usable interval. -/
  | noSchedule
  /-- The overlap policy is not known. -/
  | unsupportedPolicy (text : String)
  deriving Repr, DecidableEq

/-- The wording of a definition error. -/
def DefinitionError.message : DefinitionError → String
  | badExpression e => "Invalid cron expression: " ++ e.message
  | noMatch => "No matching time within the 366-day search window"
  | noSchedule => "Job has no usable cron_expression or interval_seconds"
  | unsupportedPolicy text =>
    "Unsupported overlap policy: " ++ Text.quoted text ++ " (only \"forbid\" is supported)"

/-! ### Overlap -/

/-- What happens to a fire while an earlier run of the job is still going. -/
inductive OverlapPolicy where
  /-- The fire is recorded and skipped. -/
  | forbid
  deriving Repr, DecidableEq

namespace OverlapPolicy

/-- The stored name of a policy. -/
def name : OverlapPolicy → String
  | forbid => "forbid"

/-- **Reading a policy**: blanks around it and the case of its letters do not matter, and a blank
text stands for the usual policy. -/
def parse (text : String) : Except DefinitionError OverlapPolicy :=
  let word := Text.asciiLower (Text.trim text)
  if word = "" ∨ word = "forbid" then .ok .forbid else .error (.unsupportedPolicy text)

end OverlapPolicy

/-! ### Jobs -/

/-- **A job**: its definition and the scheduler's bookkeeping.  Times are in seconds. -/
structure Job where
  /-- The identifier given when the job was created. -/
  id : String
  /-- The name given by people, unique among jobs. -/
  name : String
  /-- Only enabled jobs fire. -/
  enabled : Bool
  /-- The fires, as a cron expression in universal time. -/
  cronExpression : Option String
  /-- The fires, as a fixed distance from the previous one. -/
  intervalSeconds : Option Int
  /-- What is handed to the task runner. -/
  task : String
  /-- The job is disabled by its next fire. -/
  runOnce : Bool
  /-- The overlap policy as it was stored. -/
  overlapPolicy : String
  /-- The deadline of a run. -/
  timeoutSeconds : Option Int
  /-- The model that runs of this job use. -/
  model : Option String
  /-- Who is told about finished runs. -/
  notifyTarget : Option String
  /-- The most recent fire. -/
  lastRunAt : Option Int
  /-- The next fire; nothing when it has yet to be computed. -/
  nextRunAt : Option Int
  /-- When the job was created. -/
  createdAt : Int
  /-- When the job was last changed. -/
  updatedAt : Int
  deriving Repr, DecidableEq

namespace Job

/-- The deadline of a run, in seconds, when its job sets none. -/
def defaultTimeout : Nat := 600

/-- The longest deadline of a run, in seconds: a week. -/
def maxTimeout : Nat := 604800

/-- The longest distance between two fires, in seconds: ten leap years. -/
def maxInterval : Nat := 316224000

/-- The stored overlap policy, read. -/
def policy (j : Job) : Except DefinitionError OverlapPolicy :=
  OverlapPolicy.parse j.overlapPolicy

/-- **The deadline of a run** in seconds: the job's own when it is positive, cut at a week, and
otherwise the usual one. -/
def timeout (j : Job) : Nat :=
  match j.timeoutSeconds with
  | some s => if 0 < s then Nat.min s.toNat maxTimeout else defaultTimeout
  | none => defaultTimeout

/-- The model of a run: the job's own unless it is blank, otherwise the given one. -/
def effectiveModel (j : Job) (default : String) : String :=
  ((j.model.bind Text.nonBlank?).getD default)

/-! ### Facts -/

/-- A run has at least a second. -/
theorem timeout_pos (j : Job) : 0 < j.timeout := by
  unfold timeout
  split
  · split
    · exact Nat.lt_min.2 ⟨by omega, by decide⟩
    · decide
  · decide

/-- A run has at most a week. -/
theorem timeout_le (j : Job) : j.timeout ≤ maxTimeout := by
  unfold timeout
  split
  · split
    · exact Nat.min_le_right _ _
    · decide
  · decide

end Job

end Timetable
