/-
**The scheduler.**

The scheduler turns fires into runs.  When it starts, it fails the runs that an earlier process left
going and moves the next fire of every job into the future, so that fires missed meanwhile are not
made up for.  From then on it passes over the jobs again and again: jobs without a next fire get
one, and jobs whose next fire has come are fired.

Main definitions:

* `Scheduler.recover` — failing the runs of an earlier process;
* `Scheduler.reconcile` — moving next fires into the future;
* `Scheduler.tick` — **one pass over the jobs**;
* `Scheduler.start` — recovery and reconciliation, in this order.
-/

import Timetable.Program

set_option autoImplicit false
set_option relaxedAutoImplicit false

namespace Timetable.Scheduler

open Program

/-- The error of runs that an earlier process left going. -/
def orphanMessage : String := "process restarted"

/-! ### Starting -/

/-- Every run that an earlier process left going fails; the answer is their number. -/
def recover (now : Int) : Failing AccessError Nat :=
  attempt (.failRunning orphanMessage now)

/-- The next fire of a job is missing or has been missed. -/
def isStale (now : Int) (j : Job) : Bool :=
  match j.nextRunAt with
  | none => true
  | some next => next < now

/-- The given jobs are moved into the future, or disabled if they cannot be scheduled. -/
def reconcileJobs (now : Int) : List Job → Failing AccessError Unit
  | [] => done (.ok ())
  | j :: rest =>
    match j.nextFire now with
    | .error .outOfTime => done (.error .outOfTime)
    | .error (.definition _) =>
      (attempt (.disableInvalid j.id now)).andThen fun _ => reconcileJobs now rest
    | .ok next =>
      if isStale now j then
        (attempt (.setNextRun j.id (some next) now)).andThen fun _ => reconcileJobs now rest
      else reconcileJobs now rest

/-- **Reconciliation**: the next fire of every enabled job is moved into the future. -/
def reconcile (now : Int) : Failing AccessError Unit :=
  (attempt .enabledJobs).andThen (reconcileJobs now)

/-- What is done before the first pass. -/
def start (now : Int) : Failing AccessError Unit :=
  (recover now).andThen fun _ => reconcile now

/-! ### One pass -/

/-- The given jobs get a next fire, or are disabled if they cannot be scheduled.  A job whose write
fails is left for the next pass. -/
def fillNextRuns (now : Int) : List Job → Failing AccessError Unit
  | [] => done (.ok ())
  | j :: rest =>
    match j.nextFire now with
    | .error .outOfTime => done (.error .outOfTime)
    | .error (.definition _) =>
      perform (.disableInvalid j.id now) fun _ => fillNextRuns now rest
    | .ok next => perform (.setNextRun j.id (some next) now) fun _ => fillNextRuns now rest

/-- The given jobs are fired.  A job whose fire fails is left for the next pass.  The answer lists
what became of the fires. -/
def fireJobs (now : Int) : List String → Failing AccessError (List EnqueueOutcome)
  | [] => done (.ok [])
  | id :: rest =>
    perform (.enqueue id now) fun
      | .ok outcome => (fireJobs now rest).andThen fun outcomes => done (.ok (outcome :: outcomes))
      | .error .outOfTime => done (.error .outOfTime)
      | .error _ => fireJobs now rest

/-- **One pass over the jobs.** -/
def tick (now : Int) : Failing AccessError (List EnqueueOutcome) :=
  (attempt .jobsWithoutNextRun).andThen fun jobs =>
    (fillNextRuns now jobs).andThen fun _ =>
      (attempt (.dueJobIds now)).andThen (fireJobs now)

end Timetable.Scheduler
