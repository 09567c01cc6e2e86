/-
**How a run ends.**

Three things happen around a run at moments of their own: its task returns, its deadline passes, and
the shutdown of the scheduler is asked for.  A task that succeeds has succeeded, whatever else
happened.  A task that fails is judged by what came before its return, and of two such things by the
first one.  What is stored of the texts is as many of their characters, from the head, as the
settings leave room for.

Main definitions:

* `Text.head` — the first characters of a text;
* `Timeline.TimesOut`, `Timeline.ShutDown` — **what comes before the return of a task** first.

Main results:

* `Timeline.context_moment` — what one moment does to the context;
* `Timeline.stopped_contextAt` — why the context is stopped at a moment;
* `Timeline.stopped_of_le` — the cause stays for good;
* `Timeline.classify_contextAt` — **how a run ends**.
-/

import Mathlib.Order.Nat
import Timetable.Job.Basic
import Timetable.Worker.Outcome
import Timetable.Worker.Watchdog

set_option autoImplicit false
set_option relaxedAutoImplicit false

namespace Timetable

/-! ### Texts -/

namespace Text

/-- The first characters of a text. -/
def head (max : Nat) (s : String) : String :=
  String.ofList (s.toList.take max)

/-- A text cut to a positive length is its first characters. -/
theorem limit_eq_head {max : Nat} (h : 0 < max) (s : String) : limit max s = head max s := by
  rw [← String.toList_inj, toList_limit, if_neg (Nat.ne_of_gt h), head, String.toList_ofList]

end Text

/-! ### Contexts -/

theorem RunContext.stopped_stop (c : RunContext) (cause : StopCause) :
    (c.stop cause).stopped = c.stopped.or (some cause) := by
  cases h : c.stopped <;> simp [stop, h]

theorem RunContext.stopped_stopIf (c : RunContext) (happened : Bool) (cause : StopCause) :
    (c.stopIf happened cause).stopped = c.stopped.or (if happened then some cause else none) := by
  cases happened with
  | false => simp [stopIf]
  | true => exact c.stopped_stop cause

namespace Timeline

variable {l : Timeline} {w : Watchdog} {t : Nat}

theorem sound_moment (h : w.Sound) (t : Nat) : (l.moment t w).Sound :=
  (h.cancelIf _).turnIf _ _

/-- **What one moment does to the context**: it is stopped by the shutdown, if that is asked for
then, and by the deadline, if the watchdog has its turn when that has passed. -/
theorem context_moment (h : w.Sound) (t timeout : Nat) :
    (l.moment t w).context timeout =
      ((w.context timeout).stopIf (l.shutdownAt == some t) .shutdown).stopIf
        ((t == l.deadline || l.woken t) && decide (l.deadline ≤ t)) .deadline := by
  rw [moment, (h.cancelIf _).context_turnIf, h.context_cancelIf]

theorem sound_watchdogAt (l : Timeline) (t : Nat) : (l.watchdogAt t).Sound := by
  induction t with
  | zero => exact sound_moment Watchdog.sound_new 0
  | succ t ih => exact sound_moment ih (t + 1)

/-- **The first of the two events** that have happened by a moment. -/
def firstEvent? (l : Timeline) (t : Nat) : Option StopCause :=
  if l.shutdownAt.any (fun c => c ≤ t ∧ c ≤ l.deadline) then some .shutdown
  else if l.deadline ≤ t then some .deadline
  else none

theorem firstEvent?_zero (l : Timeline) (woken : Bool) :
    l.firstEvent? 0 = (if l.shutdownAt == some 0 then some .shutdown else none).or
      (if (0 == l.deadline || woken) && decide (l.deadline ≤ 0) then some .deadline else none) := by
  cases hshutdown : l.shutdownAt with
  | none =>
    simp only [firstEvent?, hshutdown, Option.any_none]
    grind
  | some c =>
    simp only [firstEvent?, hshutdown, Option.any_some]
    grind

/-- An event is the first one from the moment at which it happens. -/
theorem firstEvent?_succ (l : Timeline) (t : Nat) (woken : Bool) :
    l.firstEvent? (t + 1) =
      ((l.firstEvent? t).or (if l.shutdownAt == some (t + 1) then some .shutdown else none)).or
        (if (t + 1 == l.deadline || woken) && decide (l.deadline ≤ t + 1) then some .deadline
          else none) := by
  cases hshutdown : l.shutdownAt with
  | none =>
    simp only [firstEvent?, hshutdown, Option.any_none]
    grind
  | some c =>
    simp only [firstEvent?, hshutdown, Option.any_some]
    grind

/-- **A context is stopped by the first event.** -/
theorem stopped_contextAt (l : Timeline) (t : Nat) : (l.contextAt t).stopped = l.firstEvent? t := by
  induction t with
  | zero =>
    rw [contextAt, watchdogAt, context_moment Watchdog.sound_new, RunContext.stopped_stopIf,
      RunContext.stopped_stopIf, l.firstEvent?_zero (l.woken 0)]
    rfl
  | succ t ih =>
    rw [contextAt, watchdogAt, context_moment (l.sound_watchdogAt t), RunContext.stopped_stopIf,
      RunContext.stopped_stopIf, ← contextAt, ih, ← firstEvent?_succ]

/-- **The cause stays for good.** -/
theorem stopped_of_le {t' : Nat} {cause : StopCause} (hle : t ≤ t')
    (h : (l.contextAt t).stopped = some cause) : (l.contextAt t').stopped = some cause := by
  induction t', hle using Nat.le_induction with
  | base => exact h
  | succ t' _ ih =>
    rw [stopped_contextAt] at ih ⊢
    rw [l.firstEvent?_succ t' false, ih, Option.some_or, Option.some_or]

/-! ### Deadlines -/

/-- A timeout that can be added to the instant of the start is the deadline. -/
theorem deadline_eq (h : l.timeout ≤ l.reach) : l.deadline = l.timeout := if_pos h

/-- The timeout of a job can. -/
theorem timeout_le_reach {j : Job} (h : l.timeout = j.timeout * nanosPerSecond) :
    l.timeout ≤ l.reach := by
  have hweek : j.timeout ≤ 7 * 24 * 60 * 60 := j.timeout_le
  have hfar := l.far
  unfold farFuture at hfar
  -- a week is less than thirty years, whatever the unit
  calc l.timeout
    _ = j.timeout * nanosPerSecond := h
    _ ≤ 30 * 365 * 24 * 60 * 60 * nanosPerSecond := Nat.mul_le_mul_right _ (by omega)
    _ ≤ l.reach := hfar

/-! ### Outcomes -/

/-- **The deadline comes first**: it passes before the task returns and before the shutdown is asked
for. -/
def TimesOut (l : Timeline) (r : Nat) : Prop :=
  l.deadline < r ∧ ∀ c ∈ l.shutdownAt, l.deadline < c

/-- **The shutdown comes first**: it is asked for before the task returns and before the deadline
passes. -/
def ShutDown (l : Timeline) (r : Nat) : Prop :=
  ∃ c ∈ l.shutdownAt, c < r ∧ c < l.deadline

variable {r : Nat}

theorem stopped_eq_deadline_iff (hreturn : r ≠ l.deadline) :
    (l.contextAt r).stopped = some .deadline ↔ l.TimesOut r := by
  rw [stopped_contextAt, firstEvent?, TimesOut]
  cases hc : l.shutdownAt with
  | none => grind
  | some c =>
    simp only [Option.any_some, decide_eq_true_eq, Option.mem_some_iff, forall_eq']
    grind

theorem stopped_eq_shutdown_iff (hshutdown : l.shutdownAt ≠ some r)
    (happart : l.shutdownAt ≠ some l.deadline) :
    (l.contextAt r).stopped = some .shutdown ↔ l.ShutDown r := by
  rw [stopped_contextAt, firstEvent?, ShutDown]
  cases hc : l.shutdownAt with
  | none => grind
  | some c =>
    simp only [hc, ne_eq, Option.some.injEq] at hshutdown happart
    simp only [Option.any_some, decide_eq_true_eq, Option.mem_some_iff, exists_eq_left']
    grind

/-- **How a run ends.**  A task that succeeds has succeeded, and its summary is kept as far as there
is room.  A task that fails is timed out when the deadline comes first, canceled when the shutdown
does, and failed when its return does; it has no summary, and of the message as much is kept as
there is room for.  A cause that was there at a moment is there at all later ones.  The deadline is
the timeout of the run, unless that cannot be added to an instant; the timeout of a job can. -/
theorem classify_contextAt (l : Timeline) (raw : SchedulerSettings) (hreturn : r ≠ l.deadline)
    (hshutdown : l.shutdownAt ≠ some r) (happart : l.shutdownAt ≠ some l.deadline) :
    (∀ summary, Outcome.classify raw.normalized (l.contextAt r) (.ok summary) =
      { status := .succeeded
        error := none
        summary := summary.map (Text.head raw.normalized.maxSummaryChars) }) ∧
    (∀ causes, ∃ status message,
      Outcome.classify raw.normalized (l.contextAt r) (.error causes) =
        { status
          error := some (Text.head raw.normalized.maxErrorChars message)
          summary := none } ∧
      (status = .timedOut ↔ l.TimesOut r) ∧ (status = .canceled ↔ l.ShutDown r) ∧
      (status = .failed ↔ ¬ l.TimesOut r ∧ ¬ l.ShutDown r) ∧
      (status = .timedOut → message = Outcome.timeoutMessage (l.timeout / nanosPerSecond)) ∧
      (status = .canceled → message = Outcome.canceledMessage) ∧
      (status = .failed → message = causeLine causes)) ∧
    (∀ t t' cause, t ≤ t' → (l.contextAt t).stopped = some cause →
      (l.contextAt t').stopped = some cause) ∧
    (l.timeout ≤ l.reach → l.deadline = l.timeout) ∧
    (∀ j : Job, l.timeout = j.timeout * nanosPerSecond → l.timeout ≤ l.reach) := by
  have hsummary := raw.maxSummaryChars_pos
  have herror := raw.maxErrorChars_pos
  refine ⟨?_, ?_, fun t t' cause => stopped_of_le, deadline_eq, fun j => timeout_le_reach⟩
  · intro summary
    rw [Outcome.classify, funext (Text.limit_eq_head hsummary)]
  · intro causes
    have hlate := stopped_eq_deadline_iff hreturn
    have hshut := stopped_eq_shutdown_iff hshutdown happart
    rw [← hlate, ← hshut, Outcome.classify, Outcome.ofFailure]
    simp only [Text.limit_eq_head herror]
    cases (l.contextAt r).stopped with
    | none => exact ⟨_, _, rfl, by simp⟩
    | some cause => cases cause <;> exact ⟨_, _, rfl, by simp [contextAt, Watchdog.context]⟩

/-- A run of twenty seconds, with the shutdown asked for after thirty. -/
def twentySeconds : Timeline where
  timeout := 20 * nanosPerSecond
  reach := farFuture
  far := Nat.le_refl _
  shutdownAt := some (30 * nanosPerSecond)
  woken _ := false

/-- The task fails after twenty-five seconds, and the run is timed out. -/
theorem classify_twentySeconds :
    25 * nanosPerSecond ≠ twentySeconds.deadline ∧
      twentySeconds.shutdownAt ≠ some (25 * nanosPerSecond) ∧
      twentySeconds.shutdownAt ≠ some twentySeconds.deadline ∧
      Outcome.classify (SchedulerSettings.normalized {})
          (twentySeconds.contextAt (25 * nanosPerSecond)) (.error ["boom"]) =
        { status := .timedOut
          error := some "timeout: run exceeded 20s deadline"
          summary := none } := by
  have hreturn : 25 * nanosPerSecond ≠ twentySeconds.deadline := by decide
  have hshutdown : twentySeconds.shutdownAt ≠ some (25 * nanosPerSecond) := by decide
  have happart : twentySeconds.shutdownAt ≠ some twentySeconds.deadline := by decide
  have hlate : twentySeconds.TimesOut (25 * nanosPerSecond) := by
    refine ⟨by decide, ?_⟩
    rintro c ⟨⟩
    decide
  obtain ⟨-, hfailed, -⟩ := twentySeconds.classify_contextAt {} hreturn hshutdown happart
  obtain ⟨status, message, hends, htimedOut, -, -, hmessage, -⟩ := hfailed ["boom"]
  obtain rfl := htimedOut.2 hlate
  rw [hends, hmessage rfl]
  exact ⟨hreturn, hshutdown, happart, by decide +kernel⟩

end Timeline

end Timetable
