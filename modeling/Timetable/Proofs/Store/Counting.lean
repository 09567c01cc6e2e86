/-
**Counting the runs of a job.**

How many runs of a job wait in the queue, are going, or pass any other test, and how the changes of
the table of runs move these numbers.  A row has at most one status, so the tests for two of them
never both pass.

Main definitions:

* `RunRow.isLive` — a run waits or is going, `RunRow.started` — a run after a claim;
* `Store.countRuns` — the number of runs of a job that pass a test, `Store.countLive`.

Main results:

* `RunRow.hasStatus_of_status` — **a row has one status and no other**;
* `Store.countRuns_updateRuns_le`, `Store.countRuns_addFire`, `Store.countRuns_deleteJob_le` — the
  changes of the table of runs.
-/

import Timetable.Proofs.Store.Identity

set_option autoImplicit false
set_option relaxedAutoImplicit false

namespace Timetable

/-! ### Status -/

theorem RunStatus.name_injective {a b : RunStatus} (h : a.name = b.name) : a = b := by
  have hread := congrArg RunStatus.parse? h
  simpa using hread

namespace RunRow

/-- A row with the name of a status has that status and no other. -/
theorem hasStatus_of_status {r : RunRow} {a : RunStatus} (h : r.status = a.name) (b : RunStatus) :
    r.hasStatus b = decide (a = b) := by
  by_cases hab : a = b
  · simp [hasStatus, h, hab]
  · simp only [hasStatus, h, hab, decide_false, beq_eq_false_iff_ne]
    exact fun hname => hab (RunStatus.name_injective hname)

theorem hasStatus_iff {r : RunRow} {a : RunStatus} : r.hasStatus a = true ↔ r.status = a.name := by
  simp [hasStatus]

/-- A run waits in the queue or is going. -/
def isLive (r : RunRow) : Bool := r.hasStatus .queued || r.hasStatus .running

/-- A run with the column values that a claim writes. -/
def started (r : RunRow) (now : Int) : RunRow :=
  { r with status := RunStatus.running.name, startedAt := some now }

@[simp] theorem started_jobId (r : RunRow) (now : Int) : (r.started now).jobId = r.jobId := rfl

@[simp] theorem hasStatus_started (r : RunRow) (now : Int) (b : RunStatus) :
    (r.started now).hasStatus b = decide (RunStatus.running = b) :=
  hasStatus_of_status rfl b

theorem hasStatus_ofRun (run : Run) (b : RunStatus) :
    (ofRun run).hasStatus b = decide (run.status = b) :=
  hasStatus_of_status rfl b

theorem isLive_ofRun (run : Run) :
    (ofRun run).isLive = (decide (run.status = .queued) || decide (run.status = .running)) := by
  simp only [isLive, hasStatus_ofRun]

@[simp] theorem isLive_started (r : RunRow) (now : Int) : (r.started now).isLive = true := by
  simp [isLive]

end RunRow

/-! ### Counting the runs of a job -/

namespace Store

/-- How many runs of a job pass a test. -/
def countRuns (s : Store) (test : RunRow → Bool) (jobId : String) : Nat :=
  s.runs.countP fun r => r.jobId == jobId && test r

/-- How many runs of a job wait in the queue or are going. -/
def countLive (s : Store) (jobId : String) : Nat := s.countRuns (·.isLive) jobId

theorem countRunning_eq (s : Store) (jobId : String) :
    s.countRunning jobId = s.countRuns (·.hasStatus .running) jobId := rfl

theorem countRuns_mono (s : Store) {test test' : RunRow → Bool}
    (h : ∀ r, test r = true → test' r = true) (jobId : String) :
    s.countRuns test jobId ≤ s.countRuns test' jobId := by
  refine List.countP_mono_left fun r _ hr => ?_
  simp only [Bool.and_eq_true] at hr ⊢
  exact ⟨hr.1, h r hr.2⟩

theorem countRunning_le_countLive (s : Store) (jobId : String) :
    s.countRunning jobId ≤ s.countLive jobId :=
  s.countRuns_mono (fun r hr => by simp [RunRow.isLive, hr]) jobId

/-- Some run of a job passes a test when their number is positive. -/
theorem countRuns_pos_iff (s : Store) (test : RunRow → Bool) (jobId : String) :
    0 < s.countRuns test jobId ↔ ∃ r ∈ s.runs, r.jobId = jobId ∧ test r = true := by
  simp [countRuns, List.countP_pos_iff]

/-- Changing runs that pass a test leaves at most as many that pass it. -/
theorem countRuns_updateRuns_le (s : Store) {p test : RunRow → Bool} {f : RunRow → RunRow}
    (hp : ∀ r, p r = true → test r = true) (hjob : ∀ r, (f r).jobId = r.jobId) (jobId : String) :
    (s.updateRuns p f).countRuns test jobId ≤ s.countRuns test jobId := by
  simp only [updateRuns, countRuns, List.countP_map]
  refine List.countP_mono_left fun r _ hr => ?_
  simp only [Function.comp_apply] at hr
  split at hr
  · rename_i hpr
    rw [hjob] at hr
    simp only [Bool.and_eq_true] at hr ⊢
    exact ⟨hr.1, hp r hpr⟩
  · exact hr

theorem countRuns_addFire (s : Store) (run : Run) (test : RunRow → Bool) (jobId : String) :
    (s.addFire run).countRuns test jobId =
      s.countRuns test jobId +
        if run.jobId = jobId ∧ test (RunRow.ofRun run) = true then 1 else 0 := by
  have hjob : (RunRow.ofRun run).jobId = run.jobId := rfl
  simp only [countRuns, addFire, addRun, List.countP_append, List.countP_singleton, hjob]
  congr 1
  simp only [Bool.and_eq_true, beq_iff_eq]

theorem countRuns_deleteJob_le (s : Store) (id : String) (test : RunRow → Bool) (jobId : String) :
    (s.deleteJob id).countRuns test jobId ≤ s.countRuns test jobId := by
  simp only [countRuns, deleteJob]
  split
  · exact List.filter_sublist.countP_le
  · exact Nat.le_refl _

end Store

end Timetable
