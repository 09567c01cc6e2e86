/-
**Runs.**

A run is one fire of a job on its way through the queue: it waits, is taken by a worker, and ends
in one of several ways.  A fire that finds an earlier run of its job still going is recorded as
skipped and never runs.

Main definitions:

* `RunStatus` — where a run stands, `RunStatus.parse` — reading a stored status;
* `RunStatus.isTerminal` — the run is over;
* `Run` — a run.

Main results:

* `RunStatus.parse_name` — a status is read back from its name.
-/

set_option autoImplicit false
set_option relaxedAutoImplicit false

namespace Timetable

/-! ### Status -/

/-- Where a run stands. -/
inductive RunStatus where
  /-- Waiting for a worker. -/
  | queued
  /-- Taken by a worker. -/
  | running
  /-- Over, without error. -/
  | succeeded
  /-- Over, with an error. -/
  | failed
  /-- Stopped because the scheduler shut down. -/
  | canceled
  /-- Stopped at its deadline. -/
  | timedOut
  /-- Never started, because an earlier run of the job was still going. -/
  | skipped
  deriving Repr, DecidableEq

namespace RunStatus

/-- The stored name of a status. -/
def name : RunStatus → String
  | queued => "queued"
  | running => "running"
  | succeeded => "succeeded"
  | failed => "failed"
  | canceled => "canceled"
  | timedOut => "timed_out"
  | skipped => "skipped"

/-- All statuses. -/
def all : List RunStatus :=
  [queued, running, succeeded, failed, canceled, timedOut, skipped]

/-- **Reading a stored status**: exactly its name. -/
def parse? (text : String) : Option RunStatus :=
  all.find? fun s => s.name == text

/-- The complaint about a text that is no status. -/
def unknownMessage (text : String) : String :=
  "unknown run status: " ++ text

/-- The run is over: its status is neither `queued` nor `running`. -/
def isTerminal : RunStatus → Bool
  | queued | running => false
  | succeeded | failed | canceled | timedOut | skipped => true

@[simp] theorem parse?_name (s : RunStatus) : parse? s.name = some s := by
  cases s <;> decide

end RunStatus

/-! ### Runs -/

/-- **A run** of a job.  Times are in seconds. -/
structure Run where
  /-- The identifier given when the run was created. -/
  id : String
  /-- The job that fired. -/
  jobId : String
  /-- When the job had last been changed at that fire. -/
  jobUpdatedAt : Int
  /-- Where the run stands. -/
  status : RunStatus
  /-- The fire that the run stands for. -/
  scheduledFor : Int
  /-- When a worker took the run. -/
  startedAt : Option Int
  /-- When the run was over. -/
  finishedAt : Option Int
  /-- The number of the attempt; runs are not repeated. -/
  attempt : Nat
  /-- What went wrong. -/
  error : Option String
  /-- What the task had to say about itself. -/
  resultSummary : Option String
  /-- When the run was created. -/
  createdAt : Int
  deriving Repr, DecidableEq

end Timetable
