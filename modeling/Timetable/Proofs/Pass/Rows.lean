/-
**What a pass makes of a row.**

A pass computes the next fires that are missing and then fires the jobs that are due, and a
reconciliation moves next fires into the future.  Within representable time neither of them stops
early, and what becomes of the row of a job depends on that row and on the time.  This module says
what that is; that a whole pass comes to it, one row after the other, is shown in
`Timetable.Proofs.Pass.Loops`.

Main definitions:

* `Cron.WindowFits` — the search for a fire ends in representable time;
* `JobRow.refilled`, `JobRow.discharged` — a row after the first and the second half of a pass;
* `JobRow.passed`, `JobRow.reconciled` — a row after a pass and after a reconciliation;
* `JobRow.dueRuns` — the run that a pass adds for a row, if any.

Main results:

* `Job.nextFire_ne_outOfTime` — computing next fires does not fail as such;
* `JobRow.due?_refilled` — computing next fires makes no job due.
-/

import Timetable.Proofs.Cron.Window
import Timetable.Proofs.Store.Ledger
import Timetable.Scheduler

set_option autoImplicit false
set_option relaxedAutoImplicit false

namespace Timetable

/-! ### Computing next fires in representable time -/

namespace Cron

/-- **The search for a fire after an instant ends in representable time.** -/
def WindowFits (now : Int) : Prop := firstMinute now + windowDays * Instant.day ≤ Instant.latest

instance (now : Int) : Decidable (WindowFits now) := inferInstanceAs (Decidable (_ ≤ _))

theorem firstMinute_mono {after now : Int} (h : after ≤ now) :
    firstMinute after ≤ firstMinute now := by
  simp only [firstMinute, Instant.minute]
  omega

theorem WindowFits.mono {after now : Int} (h : WindowFits now) (hle : after ≤ now) :
    WindowFits after :=
  le_trans (by simpa using firstMinute_mono hle) h

theorem WindowFits.representable {after : Int} (h : WindowFits after)
    (hstart : Instant.Representable (firstMinute after)) :
    Instant.Representable (firstMinute after + windowDays * Instant.day) := by
  refine ⟨le_trans hstart.1 ?_, h⟩
  simp only [windowDays, Instant.day]
  omega

/-- A search whose window fits does not leave representable time. -/
theorem Expression.next_ne_outOfTime {e : Expression} {text : String}
    (hparse : Expression.parse text = .ok e) {after : Int} (hfits : WindowFits after) :
    e.next after ≠ .error .outOfTime := by
  by_cases hstart : Instant.Representable (firstMinute after)
  · exact (next_reports hparse hstart (hfits.representable hstart)).1
  · simp [next, hstart]

end Cron

namespace Job

variable {j : Job} {now after fire : Int}

theorem nextCronFire_ne_outOfTime (text : String) (hfits : Cron.WindowFits after) :
    nextCronFire text after ≠ .error .outOfTime := by
  unfold nextCronFire
  split
  · simp
  · cases hparse : Cron.Expression.parse text with
    | error e => simp
    | ok e =>
      have hne := Cron.Expression.next_ne_outOfTime hparse hfits
      simp only []
      rcases hnext : e.next after with (_ | _) | t
      · simp [Except.mapError, FireFailure.ofSearch]
      · exact absurd hnext hne
      · simp [Except.mapError]

/-- **In representable time, computing a next fire fails only for the sake of the definition.** -/
theorem nextFire_ne_outOfTime (j : Job) (hfits : Cron.WindowFits after) :
    j.nextFire after ≠ .error .outOfTime := by
  unfold nextFire
  split
  · exact nextCronFire_ne_outOfTime _ hfits
  · unfold nextIntervalFire
    split
    · split <;> simp
    · simp

/-- **What becomes of a job whose fire has come**: whether it goes on and when it fires next, or why
it cannot be scheduled. -/
def takeFire (j : Job) (fire : Int) : Except FireFailure (Bool × Option Int) :=
  match j.policy with
  | .error e => .error (.definition e)
  | .ok .forbid => j.afterFire fire

theorem takeFire_ne_outOfTime (j : Job) (hfits : Cron.WindowFits fire) :
    j.takeFire fire ≠ .error .outOfTime := by
  have hne := j.nextFire_ne_outOfTime hfits
  unfold takeFire afterFire
  split
  · simp
  · split
    · simp
    · cases hnext : j.nextFire fire with
      | ok next => simp [Except.map]
      | error failure => simpa [Except.map, hnext] using hne

end Job

/-! ### Rows -/

namespace JobRow

variable (r : JobRow) (busy : Bool) (runId : String) (fire now : Int)

/-- The fire of a row that has come, if the row is enabled. -/
def due? : Option Int :=
  if r.enabled = 1 then r.nextRunAt.filter (· ≤ now) else none

/-- The row is enabled, and its next fire has yet to be computed. -/
def isMissing : Bool := r.enabled == 1 && r.nextRunAt.isNone

/-- The row of a job that cannot be scheduled. -/
def disabled : JobRow := ({ r with enabled := 0 } : JobRow).touch now

/-- The row with its next fire computed. -/
def filled : JobRow :=
  match r.decode.nextFire now with
  | .ok next => ({ r with nextRunAt := some next } : JobRow).touch now
  | .error _ => r.disabled now

/-- The row with a fire taken. -/
def fired : JobRow :=
  match r.decode.takeFire fire with
  | .ok (enabled, next) =>
    ({ r with
        enabled := flagNumber enabled, lastRunAt := some fire, nextRunAt := next } : JobRow).touch
        now
  | .error _ => r.disabled now

/-- The run of a fire that is taken, if the job can be scheduled. -/
def firedRuns : List RunRow :=
  match r.decode.takeFire fire with
  | .ok _ => [RunRow.ofRun (r.decode.firedRun busy runId fire now)]
  | .error _ => []

/-- **A row after the first half of a pass.** -/
def refilled : JobRow := if r.isMissing then r.filled now else r

/-- **A row after the second half of a pass.** -/
def discharged : JobRow :=
  match r.due? now with
  | some fire => r.fired fire now
  | none => r

/-- **The run that a pass adds for a row**, if any. -/
def dueRuns : List RunRow :=
  match r.due? now with
  | some fire => r.firedRuns busy runId fire now
  | none => []

/-- **A row after a pass.** -/
def passed : JobRow := (r.refilled now).discharged now

/-- **A row after a reconciliation.** -/
def reconciled : JobRow :=
  if r.enabled = 1 then
    match r.decode.nextFire now with
    | .ok _ => if Scheduler.isStale now r.decode then r.filled now else r
    | .error _ => r.disabled now
  else r

variable {r busy runId fire now}

@[simp] theorem disabled_id : (r.disabled now).id = r.id := rfl

@[simp] theorem filled_id : (r.filled now).id = r.id := by
  unfold filled
  split <;> rfl

@[simp] theorem fired_id : (r.fired fire now).id = r.id := by
  unfold fired
  split <;> rfl

@[simp] theorem refilled_id : (r.refilled now).id = r.id := by
  unfold refilled
  split <;> simp

@[simp] theorem discharged_id : (r.discharged now).id = r.id := by
  unfold discharged
  split <;> simp

@[simp] theorem passed_id : (r.passed now).id = r.id := by
  simp [passed]

@[simp] theorem reconciled_id : (r.reconciled now).id = r.id := by
  unfold reconciled
  repeat' split
  all_goals simp

theorem due?_eq_some :
    r.due? now = some fire ↔ r.enabled = 1 ∧ r.nextRunAt = some fire ∧ fire ≤ now := by
  unfold due?
  split
  · simp_all [Option.filter_eq_some_iff]
  · simp_all

theorem pendingFire?_of_due? (h : r.due? now = some fire) :
    r.decode.pendingFire? now = some fire := by
  obtain ⟨henabled, hnext, hle⟩ := due?_eq_some.1 h
  have hnext' : r.decode.nextRunAt = some fire := hnext
  simp [Job.pendingFire?, decode, flagSet, henabled, hnext, hle]

/-- A next fire that has just been computed lies ahead. -/
theorem due?_filled : (r.filled now).due? now = none := by
  unfold filled
  split
  · rename_i next hnext
    have hlt := Job.lt_nextFire hnext
    simp [due?, touch, Option.filter, hlt]
  · simp [due?, disabled, touch]

/-- **What is due in the second half of a pass was due before the first.** -/
theorem due?_refilled : (r.refilled now).due? now = r.due? now := by
  -- a row that is refilled had no next fire, and has one ahead afterwards
  unfold refilled
  split
  · rename_i hmissing
    have hnext : r.nextRunAt = none := by
      simpa using (Bool.and_eq_true_iff.1 hmissing).2
    rw [due?_filled]
    simp [due?, hnext]
  · rfl

theorem refilled_of_due (h : r.due? now = some fire) : r.refilled now = r := by
  obtain ⟨-, hnext, -⟩ := due?_eq_some.1 h
  simp [refilled, isMissing, hnext]

theorem passed_of_due (h : r.due? now = some fire) : r.passed now = r.fired fire now := by
  rw [passed, refilled_of_due h, discharged, h]

theorem dueRuns_refilled : (r.refilled now).dueRuns busy runId now = r.dueRuns busy runId now := by
  cases h : r.due? now with
  | none => simp only [dueRuns, due?_refilled, h]
  | some fire => rw [refilled_of_due h]

theorem passed_of_not_due (h : r.due? now = none) : r.passed now = r.refilled now := by
  rw [passed, discharged, due?_refilled, h]

/-- A row that is disabled, or whose next fire lies ahead, is left alone. -/
theorem passed_of_idle (h : r.enabled ≠ 1 ∨ ∃ fire, r.nextRunAt = some fire ∧ now < fire) :
    r.due? now = none ∧ r.passed now = r := by
  have hdue : r.due? now = none := by
    rcases h with h | ⟨fire, hnext, hlt⟩
    · simp [due?, h]
    · simp [due?, hnext, hlt]
  refine ⟨hdue, ?_⟩
  rw [passed_of_not_due hdue]
  rcases h with h | ⟨fire, hnext, -⟩
  · simp [refilled, isMissing, h]
  · simp [refilled, isMissing, hnext]

theorem dueRuns_jobId {run : RunRow} (h : run ∈ r.dueRuns busy runId now) : run.jobId = r.id := by
  unfold dueRuns firedRuns at h
  repeat' split at h
  all_goals simp_all [RunRow.ofRun]

theorem length_dueRuns_le : (r.dueRuns busy runId now).length ≤ 1 := by
  unfold dueRuns firedRuns
  repeat' split
  all_goals simp

/-- Which run is added depends on the number of the run for its identifier only. -/
theorem dueRuns_rename (runId runId' : String) :
    r.dueRuns busy runId' now = (r.dueRuns busy runId now).map ({ · with id := runId' }) := by
  unfold dueRuns firedRuns
  repeat' split
  · cases busy <;> rfl
  · rfl
  · rfl

end JobRow

end Timetable
