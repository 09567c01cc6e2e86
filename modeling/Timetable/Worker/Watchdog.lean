/-
**Watchdogs.**

The context of a run has a token, which is cancelled when the context is stopped, and a slot for the
cause, which is written at most once.  The token is cancelled together with that of the scheduler.
A watchdog sleeps until the token is cancelled or the deadline passes; in the second case it writes
the cause and then cancels the token.  When it finds both at once, the token comes first.  A context
whose token is cancelled and whose slot is empty was stopped by the shutdown.

Main definitions:

* `Watchdog` — the watchdog of a run, with the token and the slot;
* `Watchdog.cancel`, `Watchdog.turn` — **what can happen to them**;
* `Watchdog.context` — the context that they make;
* `Timeline` — when a run is stopped, `Timeline.watchdogAt` — its watchdog at a moment;
* `Timeline.contextAt` — **the context of a run at a moment**.

Main results:

* `Watchdog.Sound.cancel`, `Watchdog.Sound.turn` — a watchdog is as it began until the token is
  cancelled;
* `Watchdog.Sound.context_cancel`, `Watchdog.Sound.context_turn` — the context is stopped by what
  happens.
-/

import Timetable.Worker.Context

set_option autoImplicit false
set_option relaxedAutoImplicit false

namespace Timetable

/-- **The watchdog of a run**, with the token and the slot that it shares with the context. -/
structure Watchdog where
  /-- The token is cancelled. -/
  cancelled : Bool := false
  /-- The cause that was written. -/
  recorded : Option StopCause := none
  /-- The watchdog has not left yet. -/
  watching : Bool := true
  deriving Repr, DecidableEq

namespace Watchdog

/-- The token is cancelled. -/
def cancel (w : Watchdog) : Watchdog :=
  { w with cancelled := true }

/-- A cause is written, unless there is one. -/
def record (w : Watchdog) (cause : StopCause) : Watchdog :=
  { w with recorded := w.recorded.or (some cause) }

/-- **The watchdog has its turn**: it looks at the token first, and then at the deadline. -/
def turn (late : Bool) (w : Watchdog) : Watchdog :=
  if !w.watching then w
  else if w.cancelled then { w with watching := false }
  else if late then { (w.record .deadline).cancel with watching := false }
  else w

/-- The token is cancelled by an event that has happened. -/
def cancelIf (happened : Bool) (w : Watchdog) : Watchdog :=
  if happened then w.cancel else w

/-- The watchdog has its turn when it is woken. -/
def turnIf (woken late : Bool) (w : Watchdog) : Watchdog :=
  if woken then w.turn late else w

/-- Why the context was stopped, if it was. -/
def cause? (w : Watchdog) : Option StopCause :=
  if w.cancelled then some (w.recorded.getD .shutdown) else none

/-- **The context**, for a timeout in seconds. -/
def context (w : Watchdog) (timeout : Nat) : RunContext :=
  { timeout, stopped := w.cause? }

/-- **A watchdog is as it began** until the token is cancelled. -/
def Sound (w : Watchdog) : Prop :=
  w.cancelled = true ∨ w = {}

theorem sound_new : Sound {} := Or.inr rfl

namespace Sound

variable {w : Watchdog}

protected theorem cancel (_ : w.Sound) : w.cancel.Sound := Or.inl rfl

protected theorem turn (h : w.Sound) (late : Bool) : (w.turn late).Sound := by
  rcases h with hcancelled | rfl
  · cases hwatching : w.watching <;> simp [Watchdog.turn, Sound, hcancelled, hwatching]
  · cases late <;> simp [Watchdog.turn, Watchdog.cancel, Watchdog.record, Sound]

protected theorem cancelIf (h : w.Sound) (happened : Bool) : (w.cancelIf happened).Sound := by
  cases happened with
  | false => exact h
  | true => exact h.cancel

protected theorem turnIf (h : w.Sound) (woken late : Bool) : (w.turnIf woken late).Sound := by
  cases woken with
  | false => exact h
  | true => exact h.turn late

/-- **A cancelled token stops the context** as a shutdown does. -/
theorem context_cancel (h : w.Sound) (timeout : Nat) :
    w.cancel.context timeout = (w.context timeout).stop .shutdown := by
  rcases h with hcancelled | rfl
  · simp [context, cause?, cancel, RunContext.stop, hcancelled]
  · rfl

/-- **A turn of the watchdog stops the context** as the deadline does, if that has passed. -/
theorem context_turn (h : w.Sound) (late : Bool) (timeout : Nat) :
    (w.turn late).context timeout = (w.context timeout).stopIf late .deadline := by
  rcases h with hcancelled | rfl
  · cases late <;> cases hwatching : w.watching <;>
      simp [turn, context, cause?, RunContext.stop, RunContext.stopIf, hcancelled, hwatching]
  · cases late <;> rfl

theorem context_cancelIf (h : w.Sound) (happened : Bool) (timeout : Nat) :
    (w.cancelIf happened).context timeout = (w.context timeout).stopIf happened .shutdown := by
  cases happened with
  | false => rfl
  | true => exact h.context_cancel timeout

theorem context_turnIf (h : w.Sound) (woken late : Bool) (timeout : Nat) :
    (w.turnIf woken late).context timeout =
      (w.context timeout).stopIf (woken && late) .deadline := by
  cases woken with
  | false => rfl
  | true => exact h.context_turn late timeout

end Sound

end Watchdog

/-! ### Time -/

/-- Nanoseconds in a second. -/
def nanosPerSecond : Nat := 1000000000

/-- What stands in for a timeout that cannot be added to an instant, in nanoseconds: thirty
years. -/
def farFuture : Nat := 30 * 365 * 24 * 60 * 60 * nanosPerSecond

/-- **When a run is stopped**, in nanoseconds from its start. -/
structure Timeline where
  /-- The timeout of the run. -/
  timeout : Nat
  /-- The longest time that can be added to the instant of the start. -/
  reach : Nat
  /-- Thirty years can. -/
  far : farFuture ≤ reach
  /-- When the shutdown of the scheduler is asked for, if ever. -/
  shutdownAt : Option Nat
  /-- When else the watchdog has its turn. -/
  woken : Nat → Bool

namespace Timeline

/-- The deadline of a run. -/
def deadline (l : Timeline) : Nat :=
  if l.timeout ≤ l.reach then l.timeout else farFuture

/-- **What happens at one moment**: the shutdown cancels the token, and the watchdog has its turn
when the deadline passes and whenever else it is woken. -/
def moment (l : Timeline) (t : Nat) (w : Watchdog) : Watchdog :=
  (w.cancelIf (l.shutdownAt == some t)).turnIf (t == l.deadline || l.woken t)
    (decide (l.deadline ≤ t))

/-- The watchdog after what happens up to a moment. -/
def watchdogAt (l : Timeline) : Nat → Watchdog
  | 0 => l.moment 0 {}
  | t + 1 => l.moment (t + 1) (l.watchdogAt t)

/-- **The context of a run at a moment.** -/
def contextAt (l : Timeline) (t : Nat) : RunContext :=
  (l.watchdogAt t).context (l.timeout / nanosPerSecond)

end Timeline

end Timetable
