/-
**Claims.**

A worker takes a run from the queue in two accesses: it looks at the front of the queue and then
claims what it saw.  Between the two another worker may have been faster, and then the claim fails
and there is nothing to do.

Main definitions:

* `Run.claimed` — a run that was claimed;
* `Worker.claimNext` — **taking the run at the front of the queue**.
-/

import Timetable.Program

set_option autoImplicit false
set_option relaxedAutoImplicit false

namespace Timetable

/-- A run that was claimed at a time. -/
def Run.claimed (r : Run) (now : Int) : Run :=
  { r with status := .running, startedAt := some now }

open Program

/-- **Taking the run at the front of the queue.**  The answer is nothing when the queue is empty and
when another worker was faster. -/
def Worker.claimNext (now : Int) : Failing AccessError (Option Run) :=
  (attempt .oldestQueued).andThen fun
    | none => done (.ok none)
    | some run =>
      (attempt (.claim run.id now)).andThen fun won =>
        done (.ok (if won then some (run.claimed now) else none))

end Timetable
