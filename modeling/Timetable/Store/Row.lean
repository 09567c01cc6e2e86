/-
**Rows.**

Jobs and runs are kept as rows of two tables.  A column holds a number, a text or nothing, which is
more than a job or a run can mean: a flag is any number, a status any text.  Reading a row says what
it means: every flag but zero is set, every job row is a job, but not every run row is a run.

Main definitions:

* `JobRow`, `RunRow` — the rows of the two tables;
* `JobRow.decode` — the job of a row;
* `RunRow.decode` — **the run of a row**, or the `RowError` of the first column that has no meaning;
* `JobRow.ofSpec`, `RunRow.ofRun` — the rows that are written.

Main results:

* `RunRow.decode_ofRun` — a run that was written is read back.
-/

import Timetable.Job.Spec
import Timetable.Run

set_option autoImplicit false
set_option relaxedAutoImplicit false

namespace Timetable

/-! ### Flags -/

/-- The stored number of a flag. -/
def flagNumber (b : Bool) : Int := if b then 1 else 0

/-- The meaning of a stored flag: every number but zero is set. -/
def flagSet (n : Int) : Bool := n != 0

@[simp] theorem flagSet_flagNumber (b : Bool) : flagSet (flagNumber b) = b := by
  cases b <;> rfl

/-! ### Job rows -/

/-- A row of the table of jobs.  The columns are those of `Job`. -/
structure JobRow where
  /-- The identifier. -/
  id : String
  /-- The name. -/
  name : String
  /-- Whether the job fires, as a number. -/
  enabled : Int
  /-- The cron expression. -/
  cronExpression : Option String
  /-- The distance between fires. -/
  intervalSeconds : Option Int
  /-- The task. -/
  task : String
  /-- Whether the next fire disables the job, as a number. -/
  runOnce : Int
  /-- The overlap policy. -/
  overlapPolicy : String
  /-- The deadline of a run. -/
  timeoutSeconds : Option Int
  /-- The model. -/
  model : Option String
  /-- Who is told about finished runs. -/
  notifyTarget : Option String
  /-- The most recent fire. -/
  lastRunAt : Option Int
  /-- The next fire. -/
  nextRunAt : Option Int
  /-- When the job was created. -/
  createdAt : Int
  /-- When the job was last changed. -/
  updatedAt : Int
  deriving Repr, DecidableEq

namespace JobRow

/-- **The job of a row.** -/
def decode (r : JobRow) : Job :=
  { id := r.id
    name := r.name
    enabled := flagSet r.enabled
    cronExpression := r.cronExpression
    intervalSeconds := r.intervalSeconds
    task := r.task
    runOnce := flagSet r.runOnce
    overlapPolicy := r.overlapPolicy
    timeoutSeconds := r.timeoutSeconds
    model := r.model
    notifyTarget := r.notifyTarget
    lastRunAt := r.lastRunAt
    nextRunAt := r.nextRunAt
    createdAt := r.createdAt
    updatedAt := r.updatedAt }

/-- The row of a new job, which has neither fired nor a next fire. -/
def ofSpec (id : String) (s : JobSpec) (now : Int) : JobRow :=
  { id
    name := s.name
    enabled := flagNumber s.enabled
    cronExpression := s.cronExpression
    intervalSeconds := s.intervalSeconds
    task := s.task
    runOnce := flagNumber s.runOnce
    overlapPolicy := s.overlapPolicy.getD OverlapPolicy.forbid.name
    timeoutSeconds := s.timeoutSeconds
    model := s.model
    notifyTarget := s.notifyTarget
    lastRunAt := none
    nextRunAt := none
    createdAt := now
    updatedAt := now }

/-- A row was changed at a time; the time of the last change never goes back. -/
def touch (r : JobRow) (now : Int) : JobRow :=
  { r with updatedAt := max r.updatedAt now }

/-- A row with its definition replaced: the identifier, the bookkeeping of past fires and the time
of creation stay, and the next fire has to be computed anew. -/
def redefine (r : JobRow) (s : JobSpec) (now : Int) : JobRow :=
  { r with
    enabled := flagNumber s.enabled
    cronExpression := s.cronExpression
    intervalSeconds := s.intervalSeconds
    task := s.task
    runOnce := flagNumber s.runOnce
    overlapPolicy := s.overlapPolicy.getD OverlapPolicy.forbid.name
    timeoutSeconds := s.timeoutSeconds
    model := s.model
    notifyTarget := s.notifyTarget
    nextRunAt := none
    updatedAt := max r.updatedAt now }

end JobRow

/-! ### Run rows -/

/-- A row of the table of runs.  The columns are those of `Run`. -/
structure RunRow where
  /-- The identifier. -/
  id : String
  /-- The job that fired. -/
  jobId : String
  /-- When the job had last been changed at that fire. -/
  jobUpdatedAt : Int
  /-- Where the run stands, as text. -/
  status : String
  /-- The fire that the run stands for. -/
  scheduledFor : Int
  /-- When a worker took the run. -/
  startedAt : Option Int
  /-- When the run was over. -/
  finishedAt : Option Int
  /-- The number of the attempt. -/
  attempt : Int
  /-- What went wrong. -/
  error : Option String
  /-- What the task had to say about itself. -/
  resultSummary : Option String
  /-- When the run was created. -/
  createdAt : Int
  deriving Repr, DecidableEq

/-- Why a row of the table of runs is no run. -/
inductive RowError where
  /-- The status is none of the known ones. -/
  | unknownStatus (text : String)
  /-- The number of the attempt is no unsigned 32-bit number. -/
  | attemptOutOfRange (value : Int)
  deriving Repr, DecidableEq

namespace RunRow

/-- **The run of a row.**  The status is looked at before the number of the attempt. -/
def decode (r : RunRow) : Except RowError Run :=
  match RunStatus.parse? r.status with
  | none => .error (.unknownStatus r.status)
  | some status =>
    if 0 ≤ r.attempt ∧ r.attempt ≤ Text.uint32Max then
      .ok
        { id := r.id
          jobId := r.jobId
          jobUpdatedAt := r.jobUpdatedAt
          status
          scheduledFor := r.scheduledFor
          startedAt := r.startedAt
          finishedAt := r.finishedAt
          attempt := r.attempt.toNat
          error := r.error
          resultSummary := r.resultSummary
          createdAt := r.createdAt }
    else .error (.attemptOutOfRange r.attempt)

/-- The row of a run. -/
def ofRun (r : Run) : RunRow :=
  { id := r.id
    jobId := r.jobId
    jobUpdatedAt := r.jobUpdatedAt
    status := r.status.name
    scheduledFor := r.scheduledFor
    startedAt := r.startedAt
    finishedAt := r.finishedAt
    attempt := r.attempt
    error := r.error
    resultSummary := r.resultSummary
    createdAt := r.createdAt }

/-- A run that was written is read back. -/
theorem decode_ofRun {r : Run} (h : r.attempt ≤ Text.uint32Max) : (ofRun r).decode = .ok r := by
  have h' : (0 : Int) ≤ r.attempt ∧ (r.attempt : Int) ≤ Text.uint32Max :=
    ⟨Int.natCast_nonneg _, Int.ofNat_le.2 h⟩
  simp [decode, ofRun, h']

/-- The stored status is the given one. -/
def hasStatus (r : RunRow) (s : RunStatus) : Bool :=
  r.status == s.name

end RunRow

end Timetable
