/-
**Workers.**

A worker waits until there may be work, then takes runs from the queue one after the other: it looks
at the front of the queue, claims what it saw, loads the job, hands the task to its runner, stores
the outcome and tells whoever is to be told.  Between any two accesses to the store other parties
may have their turn, so where a worker stands is a value, and it moves on by one access at a time.

Main definitions:

* `Phase` — where a worker stands;
* `Phase.advance` — **the next access of a worker**;
* `Phase.wake`, `Phase.complete`, `Phase.notified` — what happens to a worker from outside;
* `Run.metadata` — what a task is told about its run.
-/

import Timetable.Management
import Timetable.Worker.Claim
import Timetable.Worker.Outcome

set_option autoImplicit false
set_option relaxedAutoImplicit false

namespace Timetable

/-! ### Runs on their way -/

namespace Run

/-- A run that ended at a time. -/
def finished (r : Run) (o : Outcome) (now : Int) : Run :=
  { r with
    status := o.status, error := o.error, resultSummary := o.summary, finishedAt := some now }

/-- **What a task is told about its run.** -/
def metadata (r : Run) (j : Job) : List (String × Json) :=
  [("job_id", .str j.id)] ++
    (match j.notifyTarget with
      | some target => [("notify_target", .str target)]
      | none => []) ++
    [("run_id", .str r.id),
      ("scheduled_for_utc", .str (Instant.stamp r.scheduledFor)),
      ("trigger", .str "cron")]

end Run

/-! ### Phases -/

/-- **Where a worker stands.** -/
inductive Phase where
  /-- There was no work; the worker waits. -/
  | waiting
  /-- The worker is about to look at the front of the queue. -/
  | looking
  /-- The worker saw a run and is about to claim it. -/
  | claiming (run : Run)
  /-- The worker has claimed a run and is about to load its job. -/
  | loading (run : Run)
  /-- The task of the run is being carried out. -/
  | executing (job : Job) (run : Run)
  /-- The run is over, and its outcome is about to be stored. -/
  | storing (job : Option Job) (run : Run) (outcome : Outcome)
  /-- The outcome is stored, and somebody is being told. -/
  | notifying (job : Job) (run : Run)
  /-- The worker is gone. -/
  | gone
  deriving Repr, DecidableEq

namespace Phase

universe u

variable {σ : Type u}

/-- The worker needs something from outside before it can go on. -/
def isBlocked : Phase → Bool
  | waiting | executing _ _ | notifying _ _ | gone => true
  | looking | claiming _ | loading _ | storing _ _ _ => false

/-- **The next access of a worker**, against anything that answers statements.  A worker that looks
for work while the scheduler shuts down goes instead. -/
def advance (settings : SchedulerSettings)
    (answer : {γ : Type} → Statement γ → σ → Except AccessError γ × σ)
    (shutdown : Bool) (now : Int) (p : Phase) (s : σ) : Phase × σ :=
  match p with
  | looking =>
    if shutdown then (gone, s)
    else
      match answer .oldestQueued s with
      | (.ok (some run), s) => (claiming run, s)
      | (.ok none, s) => (waiting, s)
      | (.error _, s) => (waiting, s)
  | claiming run =>
    match answer (.claim run.id now) s with
    | (.ok true, s) => (loading (run.claimed now), s)
    | (.ok false, s) => (waiting, s)
    | (.error _, s) => (waiting, s)
  | loading run =>
    match answer (.jobWithId run.jobId) s with
    | (.ok (some job), s) => (executing job run, s)
    | (.ok none, s) =>
      (storing none run (.withoutJob settings (Fault.jobNotFoundMessage run.jobId)), s)
    | (.error e, s) => (storing none run (.withoutJob settings e.message), s)
  | storing job run outcome =>
    match answer (.finish run.id outcome.status outcome.error outcome.summary now) s with
    | (.ok true, s) =>
      match job with
      | some job => (notifying job (run.finished outcome now), s)
      | none => (looking, s)
    | (.ok false, s) => (looking, s)
    | (.error _, s) => (looking, s)
  | waiting => (waiting, s)
  | executing job run => (executing job run, s)
  | notifying job run => (notifying job run, s)
  | gone => (gone, s)

/-- A waiting worker looks for work, or goes when the scheduler shuts down. -/
def wake (shutdown : Bool) : Phase → Phase
  | waiting => if shutdown then gone else looking
  | p => p

/-- The task has returned. -/
def complete (settings : SchedulerSettings) (c : RunContext) (result : TaskResult) : Phase → Phase
  | executing job run => storing (some job) run (.classify settings c result)
  | p => p

/-- Whoever was to be told has been told, or could not be. -/
def notified : Phase → Phase
  | notifying _ _ => looking
  | p => p

end Phase

end Timetable
