/-
**The service.**

The scheduler at work: again and again it passes over the jobs, and then a worker takes runs from
the queue until it is empty.  Tasks are scripts of the shell; while one is carried out nothing else
happens, so a run ends at the time at which it began, as far as the store can tell.

Main definitions:

* `Service.carryOut` — the task of a run: the context it leaves, and its result;
* `Service.work` — a worker that goes on as long as there is work;
* `Service.begin`, `Service.pass` — **the service against a store**.
-/

import Timetable.Scheduler
import Timetable.Shell.Task
import Timetable.Worker.Phase

set_option autoImplicit false
set_option relaxedAutoImplicit false

namespace Timetable.Service

/-- **The task of a run**: the context that it leaves, and its result. -/
def carryOut (settings : SchedulerSettings) (j : Job) (r : Run) : RunContext × TaskResult :=
  let (stopped, result) :=
    Shell.conduct none (j.timeout * 1000) j.task (j.effectiveModel settings.defaultModel)
      (r.metadata j)
  ({ timeout := j.timeout, stopped }, result)

/-- **A worker that goes on as long as there is work**, in at most so many steps. -/
def work (settings : SchedulerSettings) (now : Int) : (steps : Nat) → Phase → Store → Store
  | 0, _, s => s
  | steps + 1, p, s =>
    match p with
    | .waiting | .gone => s
    | .executing job run =>
      let (context, result) := carryOut settings job run
      work settings now steps (p.complete settings context result) s
    | .notifying _ _ => work settings now steps p.notified s
    | _ =>
      let (p, s) := p.advance settings Statement.run false now s
      work settings now steps p s

/-- A bound on the steps of a worker: each run takes it through all phases at most once. -/
def stepBound (s : Store) : Nat := 8 * (s.runs.length + 1)

/-- What is done before the first pass, if anything is to be done at all. -/
def begin (settings : SchedulerSettings) (now : Int) (s : Store) :
    Except AccessError Unit × Store :=
  if settings.enabled then (Scheduler.start now).runStore s else (.ok (), s)

/-- **One pass**: jobs whose time has come are fired, and what is in the queue is carried out. -/
def pass (settings : SchedulerSettings) (now : Int) (s : Store) : Store :=
  if settings.enabled then
    let (_, s) := (Scheduler.tick now).runStore s
    work settings now (stepBound s) .looking s
  else s

end Timetable.Service
