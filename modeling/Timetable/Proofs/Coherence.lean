/-
**The columns of a run fit together.**

Several statements write runs, and each of them writes some of the columns only: a run is added with
the columns of a fire, a claim writes a status and a time, and an end, whether a worker or a
recovery writes it, the columns that were still to come.  This module says what every status
promises about the other columns, and that the times of a run come in their order: the fire, its
recording, the claim and the end.  Both hold in whatever order operations follow each other, as long
as their clock does not go back.

Every write to a run that is there puts one time behind those on record, so that the order of the
times is kept by one argument for all of them.

Main definitions:

* `RunRow.times` — the times of a run;
* `RunRow.Columns` — what the columns of a run hold at each status;
* `RunRow.Coherent` — **the columns of a run fit together**, `RunRow.CoherentUntil` — and none of
  its times is later than a given one;
* `Operation.InTimeOrder` — operations at times that do not go back.

Main results:

* `RunRow.CoherentUntil.later` — a time is put behind those on record;
* `Statement.coherentUntil_run` — every statement keeps runs coherent;
* `Store.coherent_performAll` — **so do operations one after the other**.
-/

import Timetable.Proofs.Overtaking
import Timetable.Proofs.Store.Ledger
import Timetable.Proofs.Store.Lifecycle

set_option autoImplicit false
set_option relaxedAutoImplicit false

namespace Timetable

open Program

/-- A status in which a run that was going can end. -/
def RunStatus.EndsGoing : RunStatus → Prop
  | succeeded | failed | canceled | timedOut => True
  | queued | running | skipped => False

/-! ### One run -/

namespace RunRow

/-- The times of a run that are on record, in the order in which they are to come. -/
def times (r : RunRow) : List Int :=
  r.scheduledFor :: r.createdAt :: (r.startedAt.toList ++ r.finishedAt.toList)

/-- **What the columns of a run hold at each status.** -/
def Columns (r : RunRow) : RunStatus → Prop
  | .queued =>
    r.startedAt = none ∧ r.finishedAt = none ∧ r.error = none ∧ r.resultSummary = none
  | .running =>
    r.startedAt.isSome ∧ r.finishedAt = none ∧ r.error = none ∧ r.resultSummary = none
  | .skipped =>
    r.startedAt = none ∧ r.finishedAt = some r.createdAt ∧ r.error = some overlapMessage ∧
      r.resultSummary = none
  | .succeeded | .failed | .canceled | .timedOut => r.startedAt.isSome ∧ r.finishedAt.isSome

/-- **The columns of a run fit together.** -/
structure Coherent (r : RunRow) : Prop where
  /-- Runs are not repeated. -/
  attempt : r.attempt = 1
  /-- The status says which columns are filled. -/
  columns : ∃ status : RunStatus, r.status = status.name ∧ r.Columns status
  /-- The times on record do not go back. -/
  ordered : r.times.Pairwise (· ≤ ·)

/-- The columns of a run fit together, and no time on record is later than the given one. -/
structure CoherentUntil (r : RunRow) (now : Int) : Prop extends r.Coherent where
  /-- The times have come. -/
  le_now : ∀ t ∈ r.times, t ≤ now

variable {r r' : RunRow} {clock now : Int}

theorem Coherent.columns_of_hasStatus (h : r.Coherent) {status : RunStatus}
    (hstatus : r.hasStatus status = true) : r.Columns status := by
  obtain ⟨status', hname, hcolumns⟩ := h.columns
  have heq : status' = status :=
    RunStatus.name_injective (hname.symm.trans (hasStatus_iff.1 hstatus))
  rwa [← heq]

/-- A claim puts its time behind those on record. -/
theorem times_started (hstart : r.startedAt = none) (hfinish : r.finishedAt = none) (now : Int) :
    (r.started now).times = r.times ++ [now] := by
  simp [times, RunRow.started, hstart, hfinish]

/-- So does the end of a run. -/
theorem times_ended (hfinish : r.finishedAt = none) (status : RunStatus)
    (error summary : Option String) (now : Int) :
    (r.ended status error summary now).times = r.times ++ [now] := by
  simp [times, RunRow.ended, hfinish]

namespace CoherentUntil

theorem mono (h : r.CoherentUntil clock) (hle : clock ≤ now) : r.CoherentUntil now where
  toCoherent := h.toCoherent
  le_now t ht := le_trans (h.le_now t ht) hle

/-- **A time is put behind those on record.** -/
theorem later (h : r.CoherentUntil clock) (hle : clock ≤ now) (hattempt : r'.attempt = r.attempt)
    (hcolumns : ∃ status : RunStatus, r'.status = status.name ∧ r'.Columns status)
    (htimes : r'.times = r.times ++ [now]) : r'.CoherentUntil now := by
  have hbefore : ∀ t ∈ r.times, t ≤ now := (h.mono hle).le_now
  refine ⟨⟨hattempt.trans h.attempt, hcolumns, ?_⟩, ?_⟩
  · rw [htimes, List.pairwise_append]
    refine ⟨h.ordered, List.pairwise_singleton _ _, fun t ht u hu => ?_⟩
    rw [List.mem_singleton.1 hu]
    exact hbefore t ht
  · intro t ht
    rw [htimes, List.mem_append, List.mem_singleton] at ht
    rcases ht with hold | rfl
    · exact hbefore t hold
    · exact le_refl t

/-- A claim keeps the columns of a run together. -/
theorem started (h : r.CoherentUntil clock) (hle : clock ≤ now)
    (hwaits : r.hasStatus .queued = true) : (r.started now).CoherentUntil now := by
  obtain ⟨hstart, hfinish, herror, hsummary⟩ := h.columns_of_hasStatus hwaits
  exact h.later hle rfl ⟨.running, rfl, rfl, hfinish, herror, hsummary⟩
    (times_started hstart hfinish now)

/-- The end of a run keeps its columns together. -/
theorem ended (h : r.CoherentUntil clock) (hle : clock ≤ now)
    (hgoing : r.hasStatus .running = true) {status : RunStatus} (hends : status.EndsGoing)
    (error summary : Option String) : (r.ended status error summary now).CoherentUntil now := by
  obtain ⟨hstart, hfinish, -, -⟩ := h.columns_of_hasStatus hgoing
  refine h.later hle rfl ⟨status, rfl, ?_⟩ (times_ended hfinish status error summary now)
  cases status with
  | queued | running | skipped => exact hends.elim
  | _ => exact ⟨hstart, rfl⟩

end CoherentUntil

end RunRow

/-- A fire that has come is recorded with columns that fit together. -/
theorem Job.coherentUntil_firedRun (j : Job) (busy : Bool) (id : String) {fire now : Int}
    (hfire : fire ≤ now) : (RunRow.ofRun (j.firedRun busy id fire now)).CoherentUntil now := by
  cases busy
  · refine ⟨⟨rfl, ⟨.queued, rfl, rfl, rfl, rfl, rfl⟩, ?_⟩, ?_⟩ <;>
      simp [RunRow.times, RunRow.ofRun, Job.firedRun, Job.queuedRun, hfire]
  · refine ⟨⟨rfl, ⟨.skipped, rfl, rfl, rfl, rfl, rfl⟩, ?_⟩, ?_⟩ <;>
      simp [RunRow.times, RunRow.ofRun, Job.firedRun, Job.skippedRun, Job.queuedRun, hfire]

/-! ### Statements -/

/-- What a statement writes to runs, it writes at the given time, and runs end in a status in which
runs that were going can end. -/
def Statement.DatesRuns {α : Type} (now : Int) : Statement α → Prop
  | enqueue _ t | claim _ t | failRunning _ t => t = now
  | finish _ status _ _ t => status.EndsGoing ∧ t = now
  | _ => True

/-- The columns of all runs fit together, up to a time. -/
def Store.CoherentUntil (s : Store) (now : Int) : Prop := ∀ r ∈ s.runs, r.CoherentUntil now

theorem Store.CoherentUntil.mono {s : Store} {clock now : Int} (h : s.CoherentUntil clock)
    (hle : clock ≤ now) : s.CoherentUntil now :=
  fun r hr => (h r hr).mono hle

/-- **Every statement keeps runs coherent**, at a time that is not earlier than those on record. -/
theorem Statement.coherentUntil_run {α : Type} {st : Statement α} {s : Store} {clock now : Int}
    (hst : st.DatesRuns now) (hle : clock ≤ now) (h : s.CoherentUntil clock) :
    (st.run s).2.CoherentUntil now := by
  intro r' hr'
  cases Statement.yields_of_mem_runs hr' with
  | kept old => exact (h _ old).mono hle
  | taken old waits =>
    obtain rfl : _ = now := hst
    exact (h _ old).started hle waits
  | finished old going =>
    obtain ⟨hends, rfl⟩ : _ ∧ _ = now := hst
    exact (h _ old).ended hle going hends _ _
  | failed old going =>
    obtain rfl : _ = now := hst
    have hends : RunStatus.failed.EndsGoing := trivial
    exact (h _ old).ended hle going hends _ _
  | fired busy _ pending =>
    obtain rfl : _ = now := hst
    exact Job.coherentUntil_firedRun _ _ _ (Job.pendingFire?_eq_some pending).2.2

/-! ### Operations one after the other -/

namespace Operation

/-- An operation ends runs in a status in which runs that were going can end. -/
def EndsGoing : Operation → Prop
  | finish _ status _ _ _ => status.EndsGoing
  | _ => True

/-- **Operations at times that do not go back**, from a time on. -/
def InTimeOrder : Int → List Operation → Prop
  | _, [] => True
  | clock, o :: os => clock ≤ o.time clock ∧ InTimeOrder (o.time clock) os

/-- What an operation writes to runs, it writes at its own time. -/
theorem only_datesRuns {o : Operation} (ho : o.EndsGoing) (clock : Int) :
    o.program.Only fun _ st => st.DatesRuns (o.time clock) := by
  cases o with
  | saveJob spec now => exact (Management.only_saveJob (fun _ _ => trivial) fun _ => trivial).silent
  | disableJob id now => exact (Management.only_onJob trivial).silent
  | deleteJob id => exact (Management.only_onJob trivial).silent
  | tick now =>
    exact (Scheduler.only_tick trivial (fun _ _ _ => trivial) (fun _ => trivial) trivial
      fun _ => rfl).silent
  | reconcile now =>
    exact (Scheduler.only_reconcile trivial (fun _ _ _ => trivial) fun _ => trivial).silent
  | claimNext now =>
    refine Only.silent (Only.andThen (Only.attempt trivial) fun front => ?_)
    cases front with
    | none => trivial
    | some run => exact Only.andThen (Only.attempt rfl) fun _ => trivial
  | finish runId status error summary now => exact (Only.attempt ⟨ho, rfl⟩).silent
  | setNextRun id next now => exact (Only.attempt trivial).silent
  | disableInvalid id now => exact (Only.attempt trivial).silent
  | _ => exact (Only.attempt rfl).silent

end Operation

namespace Store

variable {s : Store} {clock : Int}

/-- Every operation keeps runs coherent, up to its own time. -/
theorem CoherentUntil.perform (h : s.CoherentUntil clock) {o : Operation} (ho : o.EndsGoing)
    (hle : clock ≤ o.time clock) : (s.perform o).CoherentUntil (o.time clock) :=
  (Operation.only_datesRuns ho clock).keeps (I := fun x => x.CoherentUntil (o.time clock))
    (fun _ _ _ hst hx => Statement.coherentUntil_run hst (le_refl _) hx) (h.mono hle)

/-- **The columns of every run fit together.**  Take any operations one after the other from the
empty tables on, at times that do not go back: saving, disabling and deleting jobs, setting next
fires by hand, passes, single fires, reconciliations, recoveries, claims, and ends of runs in any
status in which a run that was going can end.  Then every run is a first attempt, its status says
which of its columns are filled, and the times on record, those of the fire, its recording, the
claim and the end, do not go back. -/
theorem coherent_performAll {os : List Operation} (hos : ∀ o ∈ os, o.EndsGoing)
    (horder : Operation.InTimeOrder clock os) :
    ∀ r ∈ (empty.performAll os).runs, r.Coherent := by
  have hall (s : Store) (hs : s.CoherentUntil clock) :
      ∃ now, (s.performAll os).CoherentUntil now := by
    induction os generalizing s clock with
    | nil => exact ⟨clock, hs⟩
    | cons o os ih =>
      obtain ⟨hle, hrest⟩ := horder
      exact ih (fun o' ho' => hos o' (List.mem_cons_of_mem o ho')) hrest _
        (hs.perform (hos o List.mem_cons_self) hle)
  obtain ⟨now, hnow⟩ := hall empty fun _ h => nomatch h
  exact fun r hr => (hnow r hr).toCoherent

/-- A day of a job that fires every hour: its first run succeeds, while it was going a fire was
skipped, the next run was left by a process that ended, and the last two fires find a run that is
going and one that waits. -/
def hourlyDay : List Operation :=
  [.saveJob (.interval "report" "true" 3600) 0, .tick 0, .tick 3600, .claimNext 3601, .tick 7200,
    .finish "run:0" .succeeded none (some "done") 7201, .tick 10800, .claim "run:2" 10800,
    .recover 10802, .tick 14400, .tick 18000, .claimNext 18001]

/-- The runs of that day. -/
theorem coherent_hourlyDay :
    (∀ o ∈ hourlyDay, o.EndsGoing) ∧ Operation.InTimeOrder 0 hourlyDay ∧
      (empty.performAll hourlyDay).runs.map (fun r => (r.status, r.times)) =
        [("succeeded", [3600, 3600, 3601, 7201]), ("skipped", [7200, 7200, 7200]),
          ("failed", [10800, 10800, 10800, 10802]), ("running", [14400, 14400, 18001]),
          ("queued", [18000, 18000])] ∧
      ∀ r ∈ (empty.performAll hourlyDay).runs, r.Coherent := by
  have hends : ∀ o ∈ hourlyDay, o.EndsGoing := by
    simp [hourlyDay, Operation.EndsGoing, RunStatus.EndsGoing]
  have horder : Operation.InTimeOrder 0 hourlyDay := by
    simp [hourlyDay, Operation.InTimeOrder, Operation.time]
  exact ⟨hends, horder, by decide +kernel, coherent_performAll hends horder⟩

end Store

end Timetable
