/-
**What a start makes of the tables.**

Before its first pass a scheduler fails the runs that an earlier process left going, and moves the
next fires of all enabled jobs into the future.  An earlier process may have stopped between any two
statements, so nothing is known about the tables but that their rows are told apart.  This module
says what a start makes of every row of them, that a second start finds nothing to do, and that no
dead run holds up a fire afterwards.

Main definitions:

* `RunRow.orphaned` — a run of an earlier process, failed;
* `JobRow.StartedInto` — **what a start makes of a job**;
* `Store.Idle` — no run is going.

Main results:

* `Store.runStore_recover`, `JobRow.startedInto_reconciled` — the two halves of a start;
* `JobRow.reconciled_reconciled` — a reconciled row is left alone;
* `Store.Idle.run`, `Store.Idle.enqueue_ne_skipped` — nothing goes before the next claim, and no
  fire is skipped;
* `Store.start_ready` — **what a start makes of the tables**.
-/

import Timetable.Proofs.Overlap
import Timetable.Proofs.Pass.Loops

set_option autoImplicit false
set_option relaxedAutoImplicit false

namespace Timetable

open Program Scheduler

/-! ### Runs of an earlier process -/

namespace RunRow

/-- A run of an earlier process fails. -/
def orphaned (run : RunRow) (now : Int) : RunRow :=
  { run with
    status := RunStatus.failed.name, finishedAt := some now, error := some Scheduler.orphanMessage }

@[simp] theorem hasStatus_orphaned (run : RunRow) (now : Int) (b : RunStatus) :
    (run.orphaned now).hasStatus b = decide (RunStatus.failed = b) :=
  hasStatus_of_status rfl b

end RunRow

namespace Store

variable {s : Store} {now : Int}

/-- No run is going. -/
def Idle (s : Store) : Prop := ∀ run ∈ s.runs, run.hasStatus .running = false

/-- **Failing the runs of an earlier process**, run by run. -/
theorem runStore_recover (s : Store) (now : Int) : (recover now).runStore s =
    (.ok (s.runs.countP (·.hasStatus .running)),
      s.updateRuns (·.hasStatus .running) (·.orphaned now)) := rfl

theorem idle_updateRuns (s : Store) (now : Int) :
    (s.updateRuns (·.hasStatus .running) (·.orphaned now)).Idle := by
  intro run hrun
  obtain ⟨old, -, rfl⟩ := List.mem_map.1 hrun
  split
  · simp
  · rename_i hnot
    simpa using hnot

/-- When no run is going there is nothing to recover. -/
theorem Idle.recover (h : s.Idle) (now : Int) : (recover now).runStore s = (.ok 0, s) := by
  have hzero : s.runs.countP (·.hasStatus .running) = 0 :=
    List.countP_eq_zero.2 fun run hrun => by simp [h run hrun]
  have hsame : s.updateRuns (·.hasStatus .running) (·.orphaned now) = s := by
    have hrows : s.runs.map (fun run => if run.hasStatus .running then run.orphaned now else run) =
        s.runs := by
      conv_rhs => rw [← List.map_id s.runs]
      exact List.map_congr_left fun run hrun => by simp [h run hrun]
    rw [updateRuns, hrows]
  rw [runStore_recover, hzero, hsame]

end Store

/-! ### Jobs -/

namespace JobRow

/-- **What a start makes of a job.** -/
structure StartedInto (now : Int) (r r' : JobRow) : Prop where
  /-- Only the flag, the next fire and the time of the last change may differ. -/
  others : r' = { r with
    enabled := r'.enabled, nextRunAt := r'.nextRunAt, updatedAt := r'.updatedAt }
  /-- A disabled job is left alone. -/
  disabled : r.decode.enabled = false → r' = r
  /-- A job is disabled exactly when its definition cannot be scheduled. -/
  enabled : r.decode.enabled = true →
    (r'.decode.enabled = false ↔ ∃ e, r.decode.nextFire now = .error (.definition e))
  /-- A job whose next fire has not been missed is left alone, if it stays enabled. -/
  kept : r'.decode.enabled = true → ∀ fire, r.nextRunAt = some fire → now ≤ fire → r' = r
  /-- Any other job that stays enabled gets the next fire that is computed. -/
  moved : r'.decode.enabled = true → (∀ fire, r.nextRunAt = some fire → fire < now) →
    ∃ next, r'.nextRunAt = some next ∧ r.decode.nextFire now = .ok next

variable {r r' : JobRow} {now : Int}

/-- A job that is enabled after a start does not fire before it. -/
theorem StartedInto.exists_nextRunAt (h : StartedInto now r r') (hon : r'.decode.enabled = true) :
    ∃ next, r'.nextRunAt = some next ∧ now ≤ next := by
  by_cases hmissed : ∀ fire, r.nextRunAt = some fire → fire < now
  · obtain ⟨next, hnext, hfire⟩ := h.moved hon hmissed
    exact ⟨next, hnext, le_of_lt (Job.lt_nextFire hfire)⟩
  · push Not at hmissed
    obtain ⟨fire, hfire, hle⟩ := hmissed
    exact ⟨fire, (h.kept hon fire hfire hle).symm ▸ hfire, hle⟩

/-- The next fire of a job has not been missed. -/
theorem isStale_eq_false_iff :
    isStale now r.decode = false ↔ ∃ fire, r.nextRunAt = some fire ∧ now ≤ fire := by
  have hnext : r.decode.nextRunAt = r.nextRunAt := rfl
  rw [isStale, hnext]
  cases r.nextRunAt <;> simp

/-! A reconciliation does one of four things to a row. -/

theorem reconciled_of_disabled (h : r.enabled ≠ 1) : r.reconciled now = r := by
  rw [reconciled, if_neg h]

theorem reconciled_of_error (hon : r.enabled = 1) {failure : FireFailure}
    (hnext : r.decode.nextFire now = .error failure) : r.reconciled now = r.disabled now := by
  rw [reconciled, if_pos hon, hnext]

theorem reconciled_of_stale (hon : r.enabled = 1) {next : Int}
    (hnext : r.decode.nextFire now = .ok next) (hstale : isStale now r.decode = true) :
    r.reconciled now = ({ r with nextRunAt := some next } : JobRow).touch now := by
  rw [reconciled, if_pos hon, hnext]
  simp only [hstale, if_true, filled, hnext]

theorem reconciled_of_fresh (hon : r.enabled = 1) {next : Int}
    (hnext : r.decode.nextFire now = .ok next) (hfresh : isStale now r.decode = false) :
    r.reconciled now = r := by
  rw [reconciled, if_pos hon, hnext]
  simp only [hfresh, Bool.false_eq_true, if_false]

/-- A disabled job is left alone. -/
theorem StartedInto.refl_of_disabled (hoff : r.decode.enabled = false) : StartedInto now r r where
  others := rfl
  disabled _ := rfl
  enabled hon := by
    rw [hoff] at hon
    cases hon
  kept _ _ _ _ := rfl
  moved hon := by
    rw [hoff] at hon
    cases hon

/-- A job whose next fire lies ahead is left alone, if it can be scheduled. -/
theorem StartedInto.refl_of_fresh (hon : r.decode.enabled = true) {next : Int}
    (hnext : r.decode.nextFire now = .ok next) (hfresh : isStale now r.decode = false) :
    StartedInto now r r where
  others := rfl
  disabled _ := rfl
  enabled _ := iff_of_false (by simp [hon]) (by simp [hnext])
  kept _ _ _ _ := rfl
  moved _ hmissed := by
    obtain ⟨fire, hfire, hle⟩ := isStale_eq_false_iff.1 hfresh
    exact absurd (hmissed fire hfire) (Int.not_lt.2 hle)

/-- A job that cannot be scheduled is disabled. -/
theorem startedInto_disabled (hon : r.decode.enabled = true) {e : DefinitionError}
    (hnext : r.decode.nextFire now = .error (.definition e)) :
    StartedInto now r (r.disabled now) where
  others := rfl
  disabled hoff := by
    rw [hon] at hoff
    cases hoff
  enabled _ := iff_of_true rfl ⟨e, hnext⟩
  kept h := by cases h
  moved h := by cases h

/-- A job whose next fire was missed gets another one. -/
theorem startedInto_moved (hon : r.decode.enabled = true) {next : Int}
    (hnext : r.decode.nextFire now = .ok next) (hstale : isStale now r.decode = true) :
    StartedInto now r (({ r with nextRunAt := some next } : JobRow).touch now) where
  others := rfl
  disabled hoff := by
    rw [hon] at hoff
    cases hoff
  enabled _ := iff_of_false (by simpa [decode, touch] using hon) (by simp [hnext])
  kept _ fire hfire hle := by
    rw [isStale_eq_false_iff.2 ⟨fire, hfire, hle⟩] at hstale
    cases hstale
  moved _ _ := ⟨next, rfl, hnext⟩

/-- **A reconciliation starts a job.** -/
theorem startedInto_reconciled (hfits : Cron.WindowFits now)
    (hflag : r.enabled = 0 ∨ r.enabled = 1) :
    StartedInto now r (r.reconciled now) := by
  rcases hflag with hoff | hon
  · rw [reconciled_of_disabled (by omega)]
    exact .refl_of_disabled (by simp [decode, flagSet, hoff])
  have henabled : r.decode.enabled = true := by simp [decode, flagSet, hon]
  rcases hnext : r.decode.nextFire now with (e | _) | next
  · rw [reconciled_of_error hon hnext]
    exact startedInto_disabled henabled hnext
  · exact absurd hnext (r.decode.nextFire_ne_outOfTime hfits)
  · cases hstale : isStale now r.decode with
    | true =>
      rw [reconciled_of_stale hon hnext hstale]
      exact startedInto_moved henabled hnext hstale
    | false =>
      rw [reconciled_of_fresh hon hnext hstale]
      exact .refl_of_fresh henabled hnext hstale

/-- **A reconciled row is left alone.** -/
theorem reconciled_reconciled : (r.reconciled now).reconciled now = r.reconciled now := by
  by_cases hon : r.enabled = 1
  · cases hnext : r.decode.nextFire now with
    | error failure =>
      rw [reconciled_of_error hon hnext]
      exact reconciled_of_disabled (by simp [disabled, touch])
    | ok next =>
      cases hstale : isStale now r.decode with
      | true =>
        -- the row has the same definition, and a next fire that lies ahead
        rw [reconciled_of_stale hon hnext hstale]
        refine reconciled_of_fresh hon hnext ?_
        exact isStale_eq_false_iff.2 ⟨next, rfl, le_of_lt (Job.lt_nextFire hnext)⟩
      | false => rw [reconciled_of_fresh hon hnext hstale, reconciled_of_fresh hon hnext hstale]
  · rw [reconciled_of_disabled hon, reconciled_of_disabled hon]

end JobRow

/-! ### Fires after a start -/

namespace Statement

/-- A statement takes a run from the queue. -/
def isClaim {α : Type} : Statement α → Bool
  | claim _ _ => true
  | _ => false

end Statement

namespace Store

variable {s : Store} {now : Int}

theorem idle_iff : s.Idle ↔ ∀ jobId, s.countRunning jobId = 0 := by
  simp only [Idle, countRunning, List.countP_eq_zero]
  constructor
  · intro h jobId run hrun
    simp [h run hrun]
  · intro h run hrun
    simpa using h run.jobId run hrun

/-- **Nothing goes before the next claim.** -/
theorem Idle.run {α : Type} {st : Statement α} (h : s.Idle) (hst : st.isClaim = false) :
    (st.run s).2.Idle := by
  intro r hr
  cases Statement.yields_of_mem_runs hr with
  | kept old => exact h _ old
  | taken => cases hst
  | finished old going => exact absurd going (by simp [h _ old])
  | failed old going => exact absurd going (by simp [h _ old])
  | fired busy =>
    rw [RunRow.hasStatus_ofRun]
    cases busy <;> rfl

theorem Idle.through (h : s.Idle) {history : List Access}
    (hhistory : ∀ a ∈ history, a.2.isClaim = false) : (s.through history).Idle := by
  induction history generalizing s with
  | nil => exact h
  | cons a history ih =>
    have hfirst : (a.apply s).Idle := h.run (hhistory a List.mem_cons_self)
    exact ih hfirst fun b hb => hhistory b (List.mem_cons_of_mem a hb)

/-- While no run is going no fire is skipped. -/
theorem Idle.enqueue_ne_skipped (h : s.Idle) (id : String) (t : Int) (run : Run) :
    (s.enqueue id t).1 ≠ .ok (.skipped run) := by
  rw [idle_iff] at h
  obtain ⟨-, hanswer⟩ | ⟨e, hdisabled⟩ |
      ⟨r, fire, enabled, next, busy, -, -, -, -, hbusy, hfired⟩ :=
    s.enqueue_cases id t
  · rcases hanswer with hanswer | hanswer <;> simp [hanswer]
  · simp [hdisabled]
  · simp [hfired, hbusy, h id]

/-! ### A start -/

/-- A second reconciliation finds nothing to do. -/
theorem reconcile_again (hids : (s.jobs.map (·.id)).Nodup) (hfits : Cron.WindowFits now) :
    (reconcile now).runStore { s with jobs := s.jobs.map (·.reconciled now) } =
      (.ok (), { s with jobs := s.jobs.map (·.reconciled now) }) := by
  have hids' : ((s.jobs.map (·.reconciled now)).map (·.id)).Nodup := by
    rwa [map_id_map fun _ => JobRow.reconciled_id]
  rw [runStore_reconcile hids' hfits]
  simp only [List.map_map, Function.comp_def, JobRow.reconciled_reconciled]

/-- **What a start makes of the tables**, whatever they hold, within representable time: every run
that was going fails, as its process is gone, and their number is the answer; no other run is
changed, and none is added.  A disabled job is left alone, and an enabled one is disabled exactly
when its definition cannot be scheduled; otherwise its next fire lies ahead, and is the one that it
had unless that was missed.  A second start at the same time finds nothing to do, and until a run is
claimed no fire is skipped. -/
theorem start_ready (hids : (s.jobs.map (·.id)).Nodup)
    (hflags : ∀ r ∈ s.jobs, r.enabled = 0 ∨ r.enabled = 1) (hfits : Cron.WindowFits now) :
    ∃ s₁ s₂, (recover now).runStore s = (.ok (s.runs.countP (·.hasStatus .running)), s₁) ∧
      (reconcile now).runStore s₁ = (.ok (), s₂) ∧ (start now).runStore s = (.ok (), s₂) ∧
      s₂.runs = s.runs.map (fun run => if run.hasStatus .running then
        { run with
          status := RunStatus.failed.name, finishedAt := some now,
          error := some "process restarted" }
        else run) ∧
      List.Forall₂ (JobRow.StartedInto now) s.jobs s₂.jobs ∧
      (∀ r ∈ s₂.jobs, r.decode.enabled = true → ∃ next, r.nextRunAt = some next ∧ now ≤ next) ∧
      (recover now).runStore s₂ = (.ok 0, s₂) ∧ (reconcile now).runStore s₂ = (.ok (), s₂) ∧
      ∀ history, (∀ a ∈ history, a.2.isClaim = false) → ∀ id t run,
        ((s₂.through history).enqueue id t).1 ≠ .ok (.skipped run) := by
  let s₁ := s.updateRuns (·.hasStatus .running) (·.orphaned now)
  let s₂ : Store := { s₁ with jobs := s₁.jobs.map (·.reconciled now) }
  have hrecover : (recover now).runStore s = (.ok (s.runs.countP (·.hasStatus .running)), s₁) :=
    s.runStore_recover now
  have hreconcile : (reconcile now).runStore s₁ = (.ok (), s₂) :=
    runStore_reconcile (s := s₁) hids hfits
  have hidle : s₂.Idle := s.idle_updateRuns now
  have hstarted : List.Forall₂ (JobRow.StartedInto now) s.jobs s₂.jobs :=
    List.forall₂_map_right_iff.2 (List.forall₂_same.2 fun r hr =>
      JobRow.startedInto_reconciled hfits (hflags r hr))
  refine ⟨s₁, s₂, hrecover, hreconcile, (runStore_andThen_ok hrecover).trans hreconcile, rfl,
    hstarted, fun r' hr' hon => ?_, hidle.recover now, reconcile_again (s := s₁) hids hfits,
    fun history hhistory id t run => (hidle.through hhistory).enqueue_ne_skipped id t run⟩
  obtain ⟨r, hr, rfl⟩ := List.mem_map.1 hr'
  exact (JobRow.startedInto_reconciled hfits (hflags r hr)).exists_nextRunAt hon

/-- A process stopped while a run was going, and before the next fire of its job was computed;
another job was disabled, and has missed its next fire. -/
def leftBehind : Store where
  jobs :=
    [JobRow.ofSpec "job:0" (.interval "report" "true" 3600) 0,
      { JobRow.ofSpec "job:1" (.interval "backup" "true" 60) 0 with
        enabled := 0, nextRunAt := some 60 }]
  runs :=
    [(RunRow.ofRun ((JobRow.ofSpec "job:0" (.interval "report" "true" 3600) 0).decode.queuedRun
      "run:0" 3600 3600)).started 3605]
  jobSerial := 2
  runSerial := 1

/-- The run fails, its job gets a next fire, and the disabled job is left alone. -/
theorem start_ready_left_behind :
    Cron.WindowFits 7200 ∧ ∃ s₁ s₂, (recover 7200).runStore leftBehind = (.ok 1, s₁) ∧
      (start 7200).runStore leftBehind = (.ok (), s₂) ∧
      s₂.runs.map (fun run => (run.status, run.finishedAt, run.error)) =
        [("failed", some 7200, some "process restarted")] ∧
      s₂.jobs.map (fun r => (r.enabled, r.nextRunAt)) = [(1, some 10800), (0, some 60)] := by
  have hids : (leftBehind.jobs.map (·.id)).Nodup := by decide +kernel
  have hflags : ∀ r ∈ leftBehind.jobs, r.enabled = 0 ∨ r.enabled = 1 := by decide +kernel
  have hfits : Cron.WindowFits 7200 := by decide
  have hcount : leftBehind.runs.countP (·.hasStatus .running) = 1 := by decide +kernel
  have hjobs : ((start 7200).runStore leftBehind).2.jobs.map (fun r => (r.enabled, r.nextRunAt)) =
      [(1, some 10800), (0, some 60)] := by decide +kernel
  obtain ⟨s₁, s₂, hrecover, -, hstart, hruns, -⟩ := start_ready hids hflags hfits
  rw [hcount] at hrecover
  rw [hstart] at hjobs
  refine ⟨hfits, s₁, s₂, hrecover, hstart, ?_, hjobs⟩
  rw [hruns]
  decide +kernel

end Store

end Timetable
