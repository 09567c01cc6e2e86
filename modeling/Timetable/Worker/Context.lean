/-
**The context of a run.**

A run is carried out in a context that can be stopped from outside: by the shutdown of the scheduler
or by the deadline of the run, whichever comes first.  What came first stays the cause for good.

Main definitions:

* `StopCause` — why a context was stopped;
* `RunContext` — the context of a run, `RunContext.stop` — stopping it.

Main results:

* `RunContext.stop_stop` — a context that has been stopped keeps its cause.
-/

set_option autoImplicit false
set_option relaxedAutoImplicit false

namespace Timetable

/-- Why a context was stopped. -/
inductive StopCause where
  /-- The scheduler shuts down. -/
  | shutdown
  /-- The deadline of the run has passed. -/
  | deadline
  deriving Repr, DecidableEq

/-- The wording of a cause. -/
def StopCause.message : StopCause → String
  | shutdown => "context canceled"
  | deadline => "context deadline exceeded"

/-- **The context of a run.** -/
structure RunContext where
  /-- The deadline, in seconds from the start of the run. -/
  timeout : Nat
  /-- Why the context was stopped, if it was. -/
  stopped : Option StopCause := none
  deriving Repr, DecidableEq

namespace RunContext

/-- A context is stopped; if it was stopped before, nothing changes. -/
def stop (c : RunContext) (cause : StopCause) : RunContext :=
  match c.stopped with
  | none => { c with stopped := some cause }
  | some _ => c

/-- A context that has been stopped keeps its cause. -/
@[simp] theorem stop_stop (c : RunContext) (x y : StopCause) : (c.stop x).stop y = c.stop x := by
  unfold stop
  cases h : c.stopped <;> simp [h]

@[simp] theorem timeout_stop (c : RunContext) (x : StopCause) : (c.stop x).timeout = c.timeout := by
  unfold stop; split <;> rfl

/-- The context is stopped by an event that has happened. -/
def stopIf (c : RunContext) (happened : Bool) (cause : StopCause) : RunContext :=
  if happened then c.stop cause else c

end RunContext

end Timetable
