/-
**Rehearsals.**

A rehearsal carries a whole scheduler — its passes, its workers, tasks and notifications — through
time without letting any time pass.  The tasks act as a script says; time jumps from one moment at
which something can happen to the next; and what belongs to one moment is carried out in a fixed
order: the pass over the jobs first, then the workers, each as far as it gets.

Main definitions:

* `TaskScript` — how a task acts, `NotifierScript` — how the notifier does;
* `Rehearsal` — the state of a rehearsal;
* `Rehearsal.moment` — what happens at one moment;
* `Rehearsal.nextMoment?` — when something can happen next;
* `Rehearsal.perform` — **a rehearsal from start to end**.
-/

import Timetable.Scheduler
import Timetable.Store.Direct
import Timetable.Worker.Phase

set_option autoImplicit false
set_option relaxedAutoImplicit false

namespace Timetable

/-! ### Scripts -/

/-- **How a task acts**: what is listed here, in this order. -/
structure TaskScript where
  /-- It takes a time, in milliseconds, whatever happens to its context. -/
  sleepMs : Nat := 0
  /-- It asks the scheduler to shut down. -/
  shutdown : Bool := false
  /-- It waits until its context is stopped. -/
  wait : Bool := false
  /-- It writes a status into its run. -/
  steal : Option String := none
  /-- It deletes its job. -/
  delete : Bool := false
  /-- It returns. -/
  result : TaskResult := .ok none

/-- **How the notifier acts.** -/
inductive NotifierScript where
  /-- There is no notifier. -/
  | absent
  /-- It does its work at once, well or badly. -/
  | prompt
  /-- It never returns. -/
  | hanging
  deriving Repr, DecidableEq

/-- How long the notifier is waited for, in milliseconds. -/
def notifyTimeoutMs : Nat := 15000

/-! ### The state of a rehearsal -/

/-- What a worker is waiting for outside the store. -/
inductive Errand where
  /-- Nothing in particular. -/
  | none
  /-- A moment: work is looked for then, or the notifier is given up. -/
  | until (moment : Nat)
  /-- The end of the time that its task takes. -/
  | asleep (moment : Nat)
  /-- The end of its context. -/
  | stopped
  deriving Repr, DecidableEq

/-- **A worker in a rehearsal.** -/
structure Actor where
  /-- Where the worker stands. -/
  phase : Phase := .waiting
  /-- What it waits for. -/
  errand : Errand := .none
  /-- The context of its run. -/
  context : RunContext := { timeout := 0 }
  /-- When the deadline of its run passes. -/
  deadline : Nat := 0

/-- What a task saw when it was started. -/
structure TaskCall where
  /-- The task. -/
  task : String
  /-- The model. -/
  model : String
  /-- What it was told about its run. -/
  metadata : List (String × Json)
  /-- The identifier of its run. -/
  runId : String
  /-- The deadline of its run, in seconds. -/
  timeout : Nat
  /-- The context had been stopped already. -/
  cancelled : Bool

/-- What does not change during a rehearsal. -/
structure Cast where
  /-- The normalised settings of the scheduler. -/
  settings : SchedulerSettings
  /-- How the tasks act. -/
  scripts : List (String × TaskScript)
  /-- How the notifier acts. -/
  notifier : NotifierScript
  /-- The time that the clock shows throughout. -/
  clock : Int
  /-- When the scheduler is shut down, in milliseconds from the start. -/
  runMs : Nat

/-- **The state of a rehearsal.** -/
structure Rehearsal where
  /-- Milliseconds since the start. -/
  time : Nat
  /-- The tables. -/
  database : Database
  /-- The scheduler shuts down. -/
  shutdown : Bool
  /-- When the next pass over the jobs is made. -/
  nextTick : Nat
  /-- Somebody has been woken while nobody was waiting. -/
  permit : Bool
  /-- The workers. -/
  actors : List Actor
  /-- The tasks that were started, the last one first. -/
  calls : List TaskCall
  /-- The runs that were notified about, the last one first. -/
  notified : List (Job × Run)

namespace Rehearsal

/-- How a task acts; one without a script succeeds at once. -/
def scriptOf (cast : Cast) (task : String) : TaskScript :=
  ((cast.scripts.find? (·.1 == task)).map (·.2)).getD {}

/-! ### Stopping contexts -/

/-- The scheduler shuts down, and all contexts are stopped. -/
def shutDown (r : Rehearsal) : Rehearsal :=
  { r with
    shutdown := true
    actors := r.actors.map fun a => { a with context := a.context.stop .shutdown } }

/-- The contexts whose deadline has passed are stopped. -/
def passDeadlines (r : Rehearsal) : Rehearsal :=
  { r with
    actors := r.actors.map fun a =>
      { a with context := a.context.stopIf (decide (a.deadline ≤ r.time)) .deadline } }

/-! ### Tasks -/

/-- What a task does once its time has been taken and its context, if it waits for that, has been
stopped: it meddles with the store and returns. -/
def endTask (cast : Cast) (r : Rehearsal) (a : Actor) (run : Run) (script : TaskScript) :
    Rehearsal × Actor :=
  let stolen :=
    match script.steal with
    | some status => (r.database.writeRun run.id "status" (.text status)).2
    | none => r.database
  let left :=
    if script.delete then (Database.access (.deleteJob run.jobId) stolen).2 else stolen
  ({ r with database := left },
    { a with
      phase := a.phase.complete cast.settings a.context script.result
      errand := .none })

/-- What a task does after the time it takes. -/
def afterSleep (cast : Cast) (r : Rehearsal) (a : Actor) (run : Run) (script : TaskScript) :
    Rehearsal × Actor :=
  let (r, a) :=
    if script.shutdown then (r.shutDown, { a with context := a.context.stop .shutdown })
    else (r, a)
  if script.wait && a.context.stopped.isNone then (r, { a with errand := .stopped })
  else endTask cast r a run script

/-- A task is started. -/
def startTask (cast : Cast) (r : Rehearsal) (a : Actor) (job : Job) (run : Run) :
    Rehearsal × Actor :=
  let script := scriptOf cast job.task
  let context := RunContext.stopIf { timeout := job.timeout } r.shutdown .shutdown
  let call : TaskCall :=
    { task := job.task
      model := job.effectiveModel cast.settings.defaultModel
      metadata := run.metadata job
      runId := run.id
      timeout := job.timeout
      cancelled := context.stopped.isSome }
  let r := { r with calls := call :: r.calls }
  let a := { a with context, deadline := r.time + job.timeout * 1000 }
  if 0 < script.sleepMs then (r, { a with errand := .asleep (r.time + script.sleepMs) })
  else afterSleep cast r a run script

/-! ### Workers -/

/-- The notifier is told about a run. -/
def notify (cast : Cast) (r : Rehearsal) (a : Actor) (job : Job) (run : Run) :
    Rehearsal × Actor :=
  match cast.notifier with
  | .absent => (r, { a with phase := a.phase.notified })
  | .prompt =>
    ({ r with notified := (job, run) :: r.notified }, { a with phase := a.phase.notified })
  | .hanging =>
    ({ r with notified := (job, run) :: r.notified },
      { a with errand := .until (r.time + notifyTimeoutMs) })

/-- A worker moves on, if it can: the answer is nothing when it has to wait. -/
def moveActor? (cast : Cast) (r : Rehearsal) (a : Actor) : Option (Rehearsal × Actor) :=
  match a.phase, a.errand with
  | .gone, _ => none
  | .waiting, .until moment =>
    if r.shutdown || moment ≤ r.time then
      some (r, { a with phase := a.phase.wake r.shutdown, errand := .none })
    else if r.permit then
      some ({ r with permit := false }, { a with phase := a.phase.wake false, errand := .none })
    else none
  | .waiting, _ => some (r, { a with errand := .until (r.time + cast.settings.tickMs) })
  | .executing job run, .none => some (startTask cast r a job run)
  | .executing job run, .asleep moment =>
    if moment ≤ r.time then some (afterSleep cast r a run (scriptOf cast job.task)) else none
  | .executing job run, .stopped =>
    if a.context.stopped.isSome then some (endTask cast r a run (scriptOf cast job.task)) else none
  | .executing _ _, .until _ => none
  | .notifying job run, .none => some (notify cast r a job run)
  | .notifying _ _, .until moment =>
    if moment ≤ r.time then some (r, { a with phase := a.phase.notified, errand := .none })
    else none
  | .notifying _ _, _ => none
  | phase, _ =>
    let (phase, database) :=
      phase.advance cast.settings Database.access r.shutdown cast.clock r.database
    some ({ r with database }, { a with phase, errand := .none })

/-- The worker at a position moves on as far as it gets, in at most so many steps. -/
def moveAt (cast : Cast) (i : Nat) : (steps : Nat) → Rehearsal → Rehearsal
  | 0, r => r
  | steps + 1, r =>
    match r.actors[i]? with
    | none => r
    | some a =>
      match moveActor? cast r a with
      | none => r
      | some (r, a) => moveAt cast i steps { r with actors := r.actors.set i a }

/-- A bound on the steps of a worker at one moment: every run takes it through all phases, and it
can be sent back to the queue no more often than there are runs. -/
def stepBound (r : Rehearsal) : Nat :=
  16 * (r.database.store.runs.length + 2)

/-- All workers move on, one after the other, as far as they get. -/
def moveAll (cast : Cast) (r : Rehearsal) : Rehearsal :=
  (List.range r.actors.length).foldl (fun r i => moveAt cast i (stepBound r) r) r

/-! ### Moments -/

/-- How many of the outcomes of a pass wake a worker. -/
def wakeUps (outcomes : List EnqueueOutcome) : Nat :=
  outcomes.countP fun
    | .queued _ => true
    | _ => false

/-- So many waiting workers are woken; one more wake-up than there are is kept. -/
def wakeActors : Nat → List Actor → Bool × List Actor
  | 0, actors => (false, actors)
  | _ + 1, [] => (true, [])
  | n + 1, a :: rest =>
    match a.phase with
    | .waiting =>
      let (left, rest) := wakeActors n rest
      (left, { a with phase := a.phase.wake false, errand := .none } :: rest)
    | _ =>
      let (left, rest) := wakeActors (n + 1) rest
      (left, a :: rest)

/-- The pass over the jobs, when its moment has come. -/
def tick (cast : Cast) (r : Rehearsal) : Rehearsal :=
  if r.shutdown || r.time < r.nextTick then r
  else
    let (answer, database) := (Scheduler.tick cast.clock).run Database.access r.database
    let woken :=
      match answer with
      | .ok outcomes => wakeUps outcomes
      | .error _ => 0
    let (left, actors) := wakeActors woken r.actors
    { r with
      database, actors
      permit := r.permit || left
      nextTick := r.nextTick + cast.settings.tickMs }

/-- **What happens at one moment.** -/
def moment (cast : Cast) (r : Rehearsal) : Rehearsal :=
  let r := if cast.runMs ≤ r.time then r.shutDown else r
  let r := tick cast (passDeadlines r)
  -- A worker may stop the contexts of workers before it, which then move once more.
  moveAll cast (moveAll cast r)

/-- When something can next happen to a worker. -/
def actorMoment? (a : Actor) : Option Nat :=
  match a.phase, a.errand with
  | .gone, _ => none
  | _, .until moment => some moment
  | _, .asleep moment => some moment
  | .executing _ _, .stopped => some a.deadline
  | _, _ => none

/-- The deadline of a running task, if it has yet to pass. -/
def actorDeadline? (a : Actor) : Option Nat :=
  match a.phase with
  | .executing _ _ => some a.deadline
  | _ => none

/-- **When something can happen next**, after the present moment. -/
def nextMoment? (cast : Cast) (r : Rehearsal) : Option Nat :=
  let scheduled := if r.shutdown then [] else [r.nextTick, cast.runMs]
  let candidates :=
    scheduled ++ r.actors.filterMap actorMoment? ++ r.actors.filterMap actorDeadline?
  (candidates.filter (r.time < ·)).min?

/-- The rehearsal goes on from moment to moment, up to a horizon. -/
def playOn (cast : Cast) (horizon : Nat) (r : Rehearsal) : Rehearsal :=
  let r' := moment cast r
  match nextMoment? cast r' with
  | none => r'
  | some next =>
    if r.time < next ∧ next ≤ horizon then playOn cast horizon { r' with time := next } else r'
termination_by horizon - r.time
decreasing_by omega

/-- No moment is later than this: after the shutdown a worker ends its task, waits for the notifier
and goes. -/
def horizon (cast : Cast) : Nat :=
  cast.runMs + (cast.scripts.map fun s => s.2.sleepMs).foldl max 0 + notifyTimeoutMs +
    cast.settings.tickMs

/-- The state in which workers begin. -/
def opening (cast : Cast) (database : Database) : Rehearsal :=
  { time := 0
    database
    shutdown := false
    nextTick := cast.settings.tickMs
    permit := false
    actors := List.replicate cast.settings.concurrency {}
    calls := []
    notified := [] }

/-- What a rehearsal shows: the tasks that were started and the runs that were notified about, in
order, and the tables it left. -/
structure Report where
  /-- The tasks that were started. -/
  calls : List TaskCall := []
  /-- The runs that were notified about. -/
  notified : List (Job × Run) := []

/-- **A rehearsal from start to end**: the scheduler starts, runs for its time, shuts down and waits
for its workers. -/
def perform (cast : Cast) (database : Database) : Except AccessError Report × Database :=
  let cast := { cast with settings := cast.settings.normalized }
  if cast.settings.enabled then
    match (Scheduler.start cast.clock).run Database.access database with
    | (.error e, database) => (.error e, database)
    | (.ok _, database) =>
      let r := playOn cast (horizon cast) (opening cast database)
      (.ok { calls := r.calls.reverse, notified := r.notified.reverse }, r.database)
  else (.ok {}, database)

end Rehearsal

end Timetable
