/-
**Firing, case by case.**

Firing a job is one access to the store with seven conditions in it and four ways to come out.  This
module lists them as rules: under which conditions on the rows which answer is given, and what then
stands in the two tables.  A rule names the row that is fired and the rows before and after it, so
that what it does not mention is left as it was.

Main definitions:

* `JobRow.DueAt` — the fire of a row has come;
* `JobRow.Unschedulable`, `JobRow.GoesOn` — why a due row cannot be scheduled, and how else it goes
  on;
* `Store.Occupied` — a run of the job is going;
* `Store.Firing` — **the rules of firing a job**.

Main results:

* `Store.exists_firing` — some rule applies;
* `Store.enqueue_eq_iff_firing` — **firing a job follows the rules**.
-/

import Timetable.Proofs.Pass.Loops

set_option autoImplicit false
set_option relaxedAutoImplicit false

namespace Timetable

/-! ### Conditions on a row -/

namespace JobRow

variable {r : JobRow} {now fire : Int} {e : DefinitionError} {enabled : Bool} {next : Option Int}

/-- **The fire of a row has come**: the row is enabled, and its next fire is not ahead. -/
def DueAt (r : JobRow) (now fire : Int) : Prop :=
  flagSet r.enabled = true ∧ r.nextRunAt = some fire ∧ fire ≤ now

/-- **Why a row cannot be scheduled** at a fire: its policy is not known, or it is, but the job is
to fire again and has no next fire. -/
def Unschedulable (r : JobRow) (fire : Int) (e : DefinitionError) : Prop :=
  r.decode.policy = .error e ∨
    r.decode.policy = .ok .forbid ∧ flagSet r.runOnce = false ∧
      r.decode.nextFire fire = .error (.definition e)

/-- **How a row goes on** after a fire: disabled and without a next fire if it is to fire only once,
and else enabled and with the next fire that was found. -/
def GoesOn (r : JobRow) (fire : Int) (enabled : Bool) (next : Option Int) : Prop :=
  r.decode.policy = .ok .forbid ∧
    (flagSet r.runOnce = true ∧ enabled = false ∧ next = none ∨
      flagSet r.runOnce = false ∧ enabled = true ∧
        ∃ t, r.decode.nextFire fire = .ok t ∧ next = some t)

theorem pendingFire?_eq_some_iff : r.decode.pendingFire? now = some fire ↔ r.DueAt now fire := by
  refine ⟨Job.pendingFire?_eq_some, fun ⟨henabled, hnext, hle⟩ => ?_⟩
  simp [Job.pendingFire?, decode, henabled, hnext, hle]

theorem takeFire_eq_error_iff :
    r.decode.takeFire fire = .error (.definition e) ↔ r.Unschedulable fire e := by
  unfold Job.takeFire Job.afterFire Unschedulable
  cases hpolicy : r.decode.policy with
  | error e' => simp
  | ok policy =>
    cases policy with
    | forbid =>
      by_cases honce : flagSet r.runOnce = true
      · simp [decode, honce]
      · cases hnext : r.decode.nextFire fire <;> simp_all [decode, Except.map]

theorem takeFire_eq_ok_iff :
    r.decode.takeFire fire = .ok (enabled, next) ↔ r.GoesOn fire enabled next := by
  unfold Job.takeFire Job.afterFire GoesOn
  cases hpolicy : r.decode.policy with
  | error e' => simp
  | ok policy =>
    cases policy with
    | forbid =>
      by_cases honce : flagSet r.runOnce = true
      · simp [decode, honce, eq_comm (a := false), eq_comm (a := none)]
      · cases hnext : r.decode.nextFire fire <;>
          simp_all [decode, Except.map, eq_comm (a := true), eq_comm (a := some _)]

end JobRow

/-! ### The rules -/

namespace Store

variable {s s' : Store} {id : String} {now fire : Int} {before after : List JobRow} {r : JobRow}
  {outcome : EnqueueOutcome}

/-- A run of the job is going. -/
def Occupied (s : Store) (id : String) : Prop :=
  ∃ run ∈ s.runs, run.jobId = id ∧ run.status = RunStatus.running.name

/-- **The rules of firing a job.** -/
inductive Firing (s : Store) (id : String) (now : Int) : EnqueueOutcome → Store → Prop
  /-- No row of the job is due, and nothing changes. -/
  | notDue (idle : ∀ r ∈ s.jobs, r.id = id → ∀ fire, ¬ r.DueAt now fire) :
    Firing s id now .notDue s
  /-- The job cannot be scheduled: its row is disabled, and there is no run. -/
  | disabled {before after : List JobRow} {r : JobRow} {fire : Int} {e : DefinitionError}
    (jobs : s.jobs = before ++ r :: after) (key : r.id = id) (due : r.DueAt now fire)
    (why : r.Unschedulable fire e) :
    Firing s id now (.disabled e)
      { s with jobs := before ++ { r with enabled := 0, updatedAt := max r.updatedAt now } ::
          after }
  /-- No run of the job is going: the fire becomes a run that waits, and the row goes on. -/
  | queued {before after : List JobRow} {r : JobRow} {fire : Int} {enabled : Bool}
    {next : Option Int}
    {run : Run} (jobs : s.jobs = before ++ r :: after) (key : r.id = id) (due : r.DueAt now fire)
    (goesOn : r.GoesOn fire enabled next) (free : ¬ s.Occupied id)
    (record : run =
      { id := runIdOfSerial s.runSerial, jobId := id, jobUpdatedAt := r.updatedAt, status := .queued
        scheduledFor := fire, startedAt := none, finishedAt := none, attempt := 1
        error := none, resultSummary := none, createdAt := now }) :
    Firing s id now (.queued run)
      { s with
        jobs := before ++
          { r with
            enabled := flagNumber enabled, lastRunAt := some fire, nextRunAt := next
            updatedAt := max r.updatedAt now } :: after
        runs := s.runs ++ [.ofRun run]
        runSerial := s.runSerial + 1 }
  /-- A run of the job is going: the fire becomes a run that is over, and the row goes on. -/
  | skipped {before after : List JobRow} {r : JobRow} {fire : Int} {enabled : Bool}
    {next : Option Int}
    {run : Run} (jobs : s.jobs = before ++ r :: after) (key : r.id = id) (due : r.DueAt now fire)
    (goesOn : r.GoesOn fire enabled next) (occupied : s.Occupied id)
    (record : run =
      { id := runIdOfSerial s.runSerial, jobId := id, jobUpdatedAt := r.updatedAt
        status := .skipped, scheduledFor := fire, startedAt := none, finishedAt := some now
        attempt := 1, error := some "overlap_forbid: prior run still running"
        resultSummary := none, createdAt := now }) :
    Firing s id now (.skipped run)
      { s with
        jobs := before ++
          { r with
            enabled := flagNumber enabled, lastRunAt := some fire, nextRunAt := next
            updatedAt := max r.updatedAt now } :: after
        runs := s.runs ++ [.ofRun run]
        runSerial := s.runSerial + 1 }

/-! ### Firing follows the rules -/

theorem countRunning_pos_iff : 0 < s.countRunning id ↔ s.Occupied id := by
  simp [countRunning, List.countP_pos_iff, Occupied, RunRow.hasStatus]

theorem jobRow?_of_split (hkey : (s.jobs.map (·.id)).Nodup)
    (hjobs : s.jobs = before ++ r :: after) :
    s.jobRow? r.id = some r :=
  jobRow?_of_mem hkey (by simp [hjobs])

/-- Recording a fire changes one row and adds one run. -/
theorem recordFire_addFire_of_split (hkey : (s.jobs.map (·.id)).Nodup)
    (hjobs : s.jobs = before ++ r :: after) (run : Run) (enabled : Bool) (fire : Int)
    (next : Option Int) (now : Int) :
    (s.addFire run).recordFire r.id enabled fire next now =
      { s with
        jobs := before ++
          { r with
            enabled := flagNumber enabled, lastRunAt := some fire, nextRunAt := next
            updatedAt := max r.updatedAt now } :: after
        runs := s.runs ++ [.ofRun run]
        runSerial := s.runSerial + 1 } :=
  updateJob_of_split (s := s.addFire run) hkey hjobs _

/-- Firing a job that is due depends on what becomes of its fire. -/
theorem enqueue_of_due (hrow : s.jobRow? id = some r) (hdue : r.DueAt now fire) :
    s.enqueue id now =
      match r.decode.takeFire fire with
      | .error .outOfTime => (.error .outOfTime, s)
      | .error (.definition e) => (.ok (.disabled e), s.disableInvalid id now)
      | .ok (enabled, next) =>
        let busy := decide (0 < s.countRunning id)
        let run := r.decode.firedRun busy (runIdOfSerial s.runSerial) fire now
        (.ok (if busy then .skipped run else .queued run),
          (s.addFire run).recordFire id enabled fire next now) := by
  obtain ⟨-, rfl⟩ := jobRow?_eq_some hrow
  simp only [enqueue, jobWithId?, hrow, Option.map_some, JobRow.pendingFire?_eq_some_iff.2 hdue,
    Job.takeFire]
  cases hpolicy : r.decode.policy with
  | error e => rfl
  | ok policy =>
    cases policy with
    | forbid =>
      cases hafter : r.decode.afterFire fire with
      | error failure => cases failure <;> rfl
      | ok goesOn =>
        by_cases hbusy : 0 < s.countRunning r.id <;>
          simp [hbusy, Job.firedRun, addFire, JobRow.decode]

/-- A job is fired as the rule says whose conditions hold. -/
theorem Firing.enqueue_eq (hkey : (s.jobs.map (·.id)).Nodup) (h : s.Firing id now outcome s') :
    s.enqueue id now = (.ok outcome, s') := by
  cases h with
  | notDue idle =>
    unfold enqueue jobWithId?
    cases hrow : s.jobRow? id with
    | none => rfl
    | some r =>
      obtain ⟨hr, hid⟩ := jobRow?_eq_some hrow
      have hpending : r.decode.pendingFire? now = none := by
        refine Option.eq_none_iff_forall_ne_some.2 fun fire hfire => ?_
        exact idle r hr hid fire (JobRow.pendingFire?_eq_some_iff.1 hfire)
      simp [hpending]
  | disabled jobs key due why =>
    subst key
    rw [enqueue_of_due (jobRow?_of_split hkey jobs) due, JobRow.takeFire_eq_error_iff.2 why]
    simp only [disableInvalid, updateJob_of_split hkey jobs]
    rfl
  | queued jobs key due goesOn free record =>
    subst key record
    have hbusy := mt countRunning_pos_iff.1 free
    rw [enqueue_of_due (jobRow?_of_split hkey jobs) due, JobRow.takeFire_eq_ok_iff.2 goesOn]
    simp only [hbusy, decide_false, Bool.false_eq_true, if_false,
      recordFire_addFire_of_split hkey jobs]
    rfl
  | skipped jobs key due goesOn occupied record =>
    subst key record
    have hbusy := countRunning_pos_iff.2 occupied
    rw [enqueue_of_due (jobRow?_of_split hkey jobs) due, JobRow.takeFire_eq_ok_iff.2 goesOn]
    simp only [hbusy, decide_true, if_true, recordFire_addFire_of_split hkey jobs]
    rfl

/-- **Some rule applies**, as long as the search for the next fire ends in representable time. -/
theorem exists_firing (s : Store) (id : String) (hfits : Cron.WindowFits now) :
    ∃ outcome s', s.Firing id now outcome s' := by
  by_cases hdue : ∃ r ∈ s.jobs, r.id = id ∧ ∃ fire, r.DueAt now fire
  · obtain ⟨r, hr, hid, fire, hdue⟩ := hdue
    obtain ⟨before, after, hjobs⟩ := List.append_of_mem hr
    cases htake : r.decode.takeFire fire with
    | error failure =>
      cases failure with
      | outOfTime => exact absurd htake (r.decode.takeFire_ne_outOfTime (hfits.mono hdue.2.2))
      | definition e =>
        exact ⟨_, _, .disabled hjobs hid hdue (JobRow.takeFire_eq_error_iff.1 htake)⟩
    | ok goesOn =>
      have hgoesOn := JobRow.takeFire_eq_ok_iff.1 htake
      by_cases hoccupied : s.Occupied id
      · exact ⟨_, _, .skipped hjobs hid hdue hgoesOn hoccupied rfl⟩
      · exact ⟨_, _, .queued hjobs hid hdue hgoesOn hoccupied rfl⟩
  · exact ⟨_, _, .notDue fun r hr hid fire h => hdue ⟨r, hr, hid, fire, h⟩⟩

/-- **Firing a job follows the rules**: it gives an answer, and its answer and the store that it
leaves are those of the rule whose conditions hold. -/
theorem enqueue_eq_iff_firing {s : Store} {now : Int} (hkey : (s.jobs.map (·.id)).Nodup)
    (hfits : Cron.WindowFits now) (id : String) :
    (∃ outcome, (s.enqueue id now).1 = .ok outcome) ∧
      ∀ outcome s', s.enqueue id now = (.ok outcome, s') ↔ s.Firing id now outcome s' := by
  obtain ⟨outcome₀, s₀, hfiring⟩ := s.exists_firing id hfits
  have heq := hfiring.enqueue_eq hkey
  refine ⟨⟨outcome₀, by rw [heq]⟩, fun outcome s' => ⟨fun h => ?_, Firing.enqueue_eq hkey⟩⟩
  obtain ⟨houtcome, rfl⟩ := Prod.mk.inj (heq.symm.trans h)
  cases houtcome
  exact hfiring

/-- Two jobs, one of which is to fire once more while an earlier run of it is going. -/
def lastFire : Store where
  jobs :=
    [{ JobRow.ofSpec "job:0" (.cron "backup" "tar" "*/5 * * * *") 0 with nextRunAt := some 300 },
      { JobRow.ofSpec "job:1" { JobSpec.interval "report" "mail" 60 with runOnce := true } 10 with
        nextRunAt := some 3000 }]
  runs :=
    [.ofRun
      { id := "run:0", jobId := "job:1", jobUpdatedAt := 10, status := .running
        scheduledFor := 2000, startedAt := some 2010, finishedAt := none, attempt := 1
        error := none, resultSummary := none, createdAt := 2001 }]
  jobSerial := 2
  runSerial := 1

/-- The last fire of a busy job is skipped, and the job is disabled without a next fire. -/
theorem firing_lastFire :
    (lastFire.jobs.map (·.id)).Nodup ∧ Cron.WindowFits 3600 ∧
      (∃ outcome, (lastFire.enqueue "job:1" 3600).1 = .ok outcome) ∧
      ∃ run s', lastFire.Firing "job:1" 3600 (.skipped run) s' ∧
        run.error = some overlapMessage ∧ run.jobUpdatedAt = 10 ∧ run.finishedAt = some 3600 ∧
        s'.jobs.map (fun r => (r.enabled, r.lastRunAt, r.nextRunAt, r.updatedAt)) =
          [(1, none, some 300, 0), (0, some 3000, none, 3600)] ∧
        s'.runs.map (·.status) = ["running", "skipped"] := by
  have h := @enqueue_eq_iff_firing lastFire 3600 (by decide) (by decide) "job:1"
  let run := (lastFire.jobs[1].decode).skippedRun (runIdOfSerial 1) 3000 3600
  exact ⟨by decide, by decide, h.1, run, (lastFire.enqueue "job:1" 3600).2, (h.2 _ _).1 rfl,
    rfl, rfl, rfl, by decide, by decide⟩

end Store

end Timetable
