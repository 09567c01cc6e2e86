/-
**Firing a job.**

When the next fire of a job has come, it is turned into a run in one indivisible access: the job is
read again, its policy and its following fire are determined, the run is added, and the bookkeeping
of the job moves on.  A fire is therefore recorded once, however many schedulers look at the job.

Main definitions:

* `EnqueueOutcome` — what became of a fire;
* `Job.pendingFire?` — the fire of a job that has come;
* `Job.afterFire` — whether a job goes on after a fire, and when it fires next;
* `Store.enqueue` — **firing a job**.
-/

import Timetable.Job.Schedule
import Timetable.Store.Basic

set_option autoImplicit false
set_option relaxedAutoImplicit false

namespace Timetable

/-! ### Failures of an access -/

/-- Why an access to the store fails.  An access that fails changes nothing. -/
inductive AccessError where
  /-- A row that was read has no meaning. -/
  | unreadable (e : RowError)
  /-- The write was refused. -/
  | refused
  /-- The row that was asked for is not there. -/
  | noRow
  /-- The value does not belong into the column. -/
  | constraint (text : String)
  /-- A search for a fire left the representable stretch of time. -/
  | outOfTime
  deriving Repr, DecidableEq

/-- The wording of a row without meaning, by the position of the column at fault. -/
def RowError.message : RowError → String
  | unknownStatus text =>
    "Conversion error from type Text at index: 3, " ++ RunStatus.unknownMessage text
  | attemptOutOfRange value => "Integer " ++ Text.intText value ++ " out of range at index 7"

namespace AccessError

/-- What lies behind a failure, from the outside in. -/
def causes : AccessError → List String
  | unreadable (.unknownStatus text) =>
    [(RowError.unknownStatus text).message, RunStatus.unknownMessage text]
  | unreadable e => [e.message]
  | refused => ["rejected", "Error code 1811: Application trap in trigger program"]
  | noRow => ["Query returned no rows"]
  | constraint text => [text]
  | outOfTime => []

/-- The wording of a failure. -/
def message (e : AccessError) : String :=
  "Database error: " ++ e.causes.headD ""

end AccessError

/-! ### Fires -/

/-- What became of a fire. -/
inductive EnqueueOutcome where
  /-- The run waits in the queue. -/
  | queued (run : Run)
  /-- An earlier run of the job is still going, and the run records the fire only. -/
  | skipped (run : Run)
  /-- There is no such job, or it does not fire now. -/
  | notDue
  /-- The job cannot be scheduled and no longer fires. -/
  | disabled (e : DefinitionError)
  deriving Repr, DecidableEq

/-- What is recorded with a skipped fire. -/
def overlapMessage : String :=
  "overlap_forbid: prior run still running"

namespace Job

/-- The fire of a job that has come: its next fire, if the job is enabled and the time is not
before it. -/
def pendingFire? (j : Job) (now : Int) : Option Int :=
  if j.enabled then j.nextRunAt.filter (· ≤ now) else none

/-- Whether a job goes on after a fire, and when it fires next: a job that is to fire only once
does not. -/
def afterFire (j : Job) (fire : Int) : Except FireFailure (Bool × Option Int) :=
  if j.runOnce then .ok (false, none) else (j.nextFire fire).map fun next => (true, some next)

/-- The run of a fire, waiting in the queue. -/
def queuedRun (j : Job) (id : String) (fire now : Int) : Run :=
  { id
    jobId := j.id
    jobUpdatedAt := j.updatedAt
    status := .queued
    scheduledFor := fire
    startedAt := none
    finishedAt := none
    attempt := 1
    error := none
    resultSummary := none
    createdAt := now }

/-- The run of a fire that was skipped. -/
def skippedRun (j : Job) (id : String) (fire now : Int) : Run :=
  { j.queuedRun id fire now with
    status := .skipped, error := some overlapMessage, finishedAt := some now }

end Job

namespace Store

/-- **Firing a job.**  A job that cannot be scheduled is disabled and its fire is not recorded;
otherwise the fire becomes a run, which is skipped while an earlier run of the job is going. -/
def enqueue (s : Store) (jobId : String) (now : Int) :
    Except AccessError EnqueueOutcome × Store :=
  match s.jobWithId? jobId with
  | none => (.ok .notDue, s)
  | some j =>
    match j.pendingFire? now with
    | none => (.ok .notDue, s)
    | some fire =>
      match j.policy with
      | .error e => (.ok (.disabled e), s.disableInvalid j.id now)
      | .ok .forbid =>
        match j.afterFire fire with
        | .error .outOfTime => (.error .outOfTime, s)
        | .error (.definition e) => (.ok (.disabled e), s.disableInvalid j.id now)
        | .ok (enabled, next) =>
          let id := runIdOfSerial s.runSerial
          let busy := 0 < s.countRunning j.id
          let run := if busy then j.skippedRun id fire now else j.queuedRun id fire now
          let outcome := if busy then EnqueueOutcome.skipped run else .queued run
          let s := { s.addRun (RunRow.ofRun run) with runSerial := s.runSerial + 1 }
          (.ok outcome, s.recordFire j.id enabled fire next now)

end Store

end Timetable
