/-
**Which definitions turn out not to be schedulable.**

A specification is checked before it is stored, and what is stored is read again each time that a
next fire is computed.  The two agree: of the errors that a definition can have, a job that was
saved can only show one, namely that its cron expression has no fire in the search window.  So a job
is disabled on the strength of its definition only then, by whatever pass, reconciliation or fire.

Main definitions:

* `JobRow.OutOfFires` — a cron expression has no fire in the search window.

Main results:

* `JobRow.Intact.outOfFires_of_nextFire` — the only error of computing a next fire;
* `Store.enqueue_answer` — why firing a job fails;
* `Store.Intact.outOfFires_of_enqueue` — why firing a job disables it;
* `Store.Intact.fireJobs` — the only error that a pass reports;
* `JobRow.Intact.outOfFires_of_passed`, `JobRow.Intact.outOfFires_of_reconciled` — why a row is
  disabled;
* `Store.definition_errors` — **jobs are disabled only when they are out of fires**.
-/

import Timetable.Proofs.DueFires
import Timetable.Proofs.Integrity

set_option autoImplicit false
set_option relaxedAutoImplicit false

namespace Timetable

open Program Scheduler

/-! ### Rows -/

namespace JobRow

/-- **A job is out of fires** after an instant: its cron expression has none in the search
window. -/
structure OutOfFires (r : JobRow) (after : Int) : Prop where
  /-- The job has a cron expression. -/
  cron : r.cronExpression.isSome = true
  /-- No fire is found. -/
  noMatch : r.decode.nextFire after = .error (.definition .noMatch)

namespace Intact

variable {r : JobRow} {after fire now : Int} {failure : FireFailure}

/-- The policy of a job that was saved is known. -/
theorem policy_eq (h : r.Intact) : r.decode.policy = .ok .forbid :=
  Job.policy_of_name (Option.some.inj h.normal.policy)

/-- **The only error of computing a next fire** is that there is none. -/
theorem outOfFires_of_nextFire (h : r.Intact) (hfits : Cron.WindowFits after)
    (hnext : r.decode.nextFire after = .error failure) :
    failure = .definition .noMatch ∧ r.OutOfFires after := by
  have hschedule : Schedulable r.cronExpression r.intervalSeconds := h.normal.schedule
  generalize hcron : r.cronExpression = cronExpression at hschedule
  generalize hseconds : r.intervalSeconds = intervalSeconds at hschedule
  cases hschedule with
  | @interval seconds hpos hle =>
    have hinterval : r.decode.intervalSeconds = some seconds := hseconds
    rw [Job.nextFire_of_interval hcron, hinterval, Job.nextIntervalFire_eq hfits hpos hle] at hnext
    cases hnext
  | @cron text e hblank hparse =>
    have hsome : r.cronExpression.isSome = true := by rw [hcron]; rfl
    suffices hfailure : failure = .definition .noMatch from
      ⟨hfailure, hsome, hfailure ▸ hnext⟩
    rw [Job.nextFire_of_cron hcron hblank] at hnext
    by_cases hrep : Instant.Representable after
    · rw [Job.nextCronFire_eq hparse hrep] at hnext
      rcases hsearch : e.next after with (_ | _) | next
      · rw [hsearch] at hnext
        exact (Except.error.inj hnext).symm
      · exact absurd hsearch (Cron.Expression.next_ne_outOfTime hparse hfits)
      · rw [hsearch] at hnext
        cases hnext
    · rw [Job.nextCronFire, if_pos hrep] at hnext
      exact (Except.error.inj hnext).symm

/-- The only error of taking a fire is that there is none after it. -/
theorem outOfFires_of_takeFire (h : r.Intact) (hfits : Cron.WindowFits fire)
    (htake : r.decode.takeFire fire = .error failure) :
    failure = .definition .noMatch ∧ r.decode.runOnce = false ∧ r.OutOfFires fire := by
  rw [Job.takeFire_of_policy h.policy_eq, Job.afterFire] at htake
  split at htake
  · cases htake
  · rename_i honce
    cases hnext : r.decode.nextFire fire with
    | ok next =>
      rw [hnext] at htake
      cases htake
    | error failure' =>
      rw [hnext] at htake
      cases htake
      obtain ⟨hfailure, hout⟩ := h.outOfFires_of_nextFire hfits hnext
      exact ⟨hfailure, by simpa using honce, hout⟩

/-- Why computing a next fire disables a row. -/
theorem outOfFires_of_filled (h : r.Intact) (hfits : Cron.WindowFits now)
    (hon : r.decode.enabled = true) (hoff : (r.filled now).decode.enabled = false) :
    r.OutOfFires now := by
  rw [filled] at hoff
  split at hoff
  · have hsame : r.decode.enabled = false := hoff
    rw [hon] at hsame
    cases hsame
  · rename_i failure hnext
    exact (h.outOfFires_of_nextFire hfits hnext).2

/-- Why taking a fire disables a row: it is out of fires, or this was its one fire. -/
theorem outOfFires_of_fired (h : r.Intact) (hfits : Cron.WindowFits fire)
    (hoff : (r.fired fire now).decode.enabled = false) :
    r.OutOfFires fire ∨ r.decode.runOnce = true ∧ ∃ after, r.decode.takeFire fire = .ok after := by
  rw [fired] at hoff
  split at hoff
  · rename_i enabled next htake
    obtain rfl : enabled = false := (flagSet_flagNumber enabled).symm.trans hoff
    exact Or.inr ⟨Job.runOnce_of_takeFire htake, (false, next), htake⟩
  · rename_i failure htake
    exact Or.inl (h.outOfFires_of_takeFire hfits htake).2.2

/-- **Why a reconciliation disables a row.** -/
theorem outOfFires_of_reconciled (h : r.Intact) (hfits : Cron.WindowFits now)
    (hon : r.decode.enabled = true) (hoff : (r.reconciled now).decode.enabled = false) :
    r.OutOfFires now := by
  have hkept : r.decode.enabled ≠ false := by simp [hon]
  rw [reconciled] at hoff
  split at hoff
  · split at hoff
    · split at hoff
      · exact h.outOfFires_of_filled hfits hon hoff
      · exact absurd hoff hkept
    · rename_i failure hnext
      exact (h.outOfFires_of_nextFire hfits hnext).2
  · exact absurd hoff hkept

/-- **Why a pass disables a row**: it is out of fires, or its one fire was taken. -/
theorem outOfFires_of_passed (h : r.Intact) (hfits : Cron.WindowFits now)
    (hon : r.decode.enabled = true) (hoff : (r.passed now).decode.enabled = false) :
    r.OutOfFires (r.nextRunAt.getD now) ∨
      ∃ fire after, r.due? now = some fire ∧ r.decode.runOnce = true ∧
        r.decode.takeFire fire = .ok after := by
  cases hdue : r.due? now with
  | none =>
    rw [passed_of_not_due hdue, refilled] at hoff
    split at hoff
    · rename_i hmissing
      have hnone : r.nextRunAt = none := by
        simpa using (Bool.and_eq_true_iff.1 hmissing).2
      rw [hnone]
      exact Or.inl (h.outOfFires_of_filled hfits hon hoff)
    · rw [hon] at hoff
      cases hoff
  | some fire =>
    obtain ⟨-, hnext, hle⟩ := due?_eq_some.1 hdue
    rw [passed_of_due hdue] at hoff
    rw [hnext]
    rcases h.outOfFires_of_fired (hfits.mono hle) hoff with hout | ⟨honce, after, htake⟩
    · exact Or.inl hout
    · exact Or.inr ⟨fire, after, rfl, honce, htake⟩

end Intact

end JobRow

/-! ### Firing jobs -/

namespace Store

variable {s : Store} {now : Int}

/-- **Why firing a job fails**: its fire has come and cannot be taken. -/
theorem enqueue_answer (s : Store) (id : String) (now : Int) :
    (∃ outcome, (s.enqueue id now).1 = .ok outcome ∧ ∀ e, outcome ≠ .disabled e) ∨
      ∃ r ∈ s.jobs, r.id = id ∧ ∃ fire failure, r.decode.pendingFire? now = some fire ∧
        r.decode.takeFire fire = .error failure ∧
        (s.enqueue id now).1 = match failure with
          | .outOfTime => .error .outOfTime
          | .definition e => .ok (.disabled e) := by
  unfold enqueue
  simp only [jobWithId?]
  cases hrow : s.jobRow? id with
  | none => exact Or.inl ⟨.notDue, rfl, by simp⟩
  | some r =>
    obtain ⟨hr, hid⟩ := jobRow?_eq_some hrow
    simp only [Option.map_some]
    cases hfire : r.decode.pendingFire? now with
    | none => exact Or.inl ⟨.notDue, rfl, by simp⟩
    | some fire =>
      dsimp only
      cases hpolicy : r.decode.policy with
      | error e =>
        exact Or.inr ⟨r, hr, hid, fire, .definition e, hfire, by rw [Job.takeFire, hpolicy], rfl⟩
      | ok policy =>
        cases policy with
        | forbid =>
          have htake := Job.takeFire_of_policy hpolicy fire
          dsimp only
          cases hafter : r.decode.afterFire fire with
          | error failure =>
            refine Or.inr ⟨r, hr, hid, fire, failure, hfire, htake.trans hafter, ?_⟩
            cases failure <;> rfl
          | ok after =>
            refine Or.inl ⟨_, rfl, fun e => ?_⟩
            split <;> simp

namespace Intact

/-- **The only error of firing a job** is that it is out of fires. -/
theorem enqueue (h : s.Intact) (hfits : Cron.WindowFits now) (id : String) :
    ∃ outcome, (s.enqueue id now).1 = .ok outcome ∧ ∀ e, outcome = .disabled e →
      e = .noMatch ∧ ∃ r ∈ s.jobs, r.id = id ∧ ∃ fire ≤ now, r.nextRunAt = some fire ∧
        r.decode.runOnce = false ∧ r.OutOfFires fire := by
  rcases s.enqueue_answer id now with ⟨outcome, hok, hnot⟩ |
      ⟨r, hr, hid, fire, failure, hpending, htake, hanswer⟩
  · exact ⟨outcome, hok, fun e he => absurd he (hnot e)⟩
  · obtain ⟨-, hnext, hle⟩ := Job.pendingFire?_eq_some hpending
    obtain ⟨rfl, honce, hout⟩ := (h.rows r hr).outOfFires_of_takeFire (hfits.mono hle) htake
    refine ⟨_, hanswer, fun e he => ?_⟩
    cases he
    exact ⟨rfl, r, hr, hid, fire, hle, hnext, honce, hout⟩

/-- **Why firing a job disables it**: the job is out of fires, or its one fire was taken. -/
theorem outOfFires_of_enqueue (h : s.Intact) (hfits : Cron.WindowFits now) {id : String}
    {r r' : JobRow} (hr : r ∈ s.jobs) (hon : r.decode.enabled = true)
    (hr' : r' ∈ (s.enqueue id now).2.jobs)
    (hid : r'.id = r.id) (hoff : r'.decode.enabled = false) :
    r.OutOfFires (r.nextRunAt.getD now) ∨ r.decode.runOnce = true ∧
      ∃ run, (s.enqueue id now).2.runs.filter (·.jobId == r.id) =
        s.runs.filter (·.jobId == r.id) ++ [run] := by
  have hchanged : r' ∉ s.jobs := fun hmem => by
    rw [List.inj_on_of_nodup_map h.jobs_nodup hmem hr hid, hon] at hoff
    cases hoff
  rcases s.enqueue_cases id now with ⟨hsame, -⟩ | ⟨e, hdisabled⟩ |
      ⟨y, fire, enabled, next, busy, hy, rfl, -, hafter, -, hfired⟩
  · rw [hsame] at hr'
    exact absurd hr' hchanged
  · obtain ⟨outcome, hok, hcause⟩ := h.enqueue hfits id
    rw [hdisabled] at hok hr'
    cases hok
    obtain ⟨-, y, hy, rfl, fire, -, hnext, -, hout⟩ := hcause e rfl
    rcases mem_updateJob hr' with ⟨x, -, hx, rfl⟩ | ⟨hmem, -⟩
    · obtain rfl := List.inj_on_of_nodup_map h.jobs_nodup hr hy (hid.symm.trans hx)
      rw [hnext]
      exact Or.inl hout
    · exact absurd hmem hchanged
  · obtain ⟨run, hjob, hruns⟩ : ∃ run : RunRow, run.jobId = y.id ∧
        (s.enqueue y.id now).2.runs = s.runs ++ [run] :=
      ⟨.ofRun (y.decode.firedRun busy (runIdOfSerial s.runSerial) fire now),
        y.decode.firedRun_jobId busy _ fire now, by rw [hfired]; rfl⟩
    rw [hfired] at hr'
    rcases mem_updateJob hr' with ⟨x, -, hx, rfl⟩ | ⟨hmem, -⟩
    · obtain rfl := List.inj_on_of_nodup_map h.jobs_nodup hr hy (hid.symm.trans hx)
      obtain rfl : enabled = false := (flagSet_flagNumber enabled).symm.trans hoff
      have htake := (Job.takeFire_of_policy (h.rows r hr).policy_eq fire).trans hafter
      refine Or.inr ⟨Job.runOnce_of_takeFire htake, run, ?_⟩
      rw [hruns, List.filter_append]
      simp [hjob]
    · exact absurd hmem hchanged

/-- **The only error that firing jobs reports.** -/
theorem fireJobs (h : s.Intact) (hfits : Cron.WindowFits now) (ids : List String) :
    ∃ outcomes, ((fireJobs now ids).runStore s).1 = .ok outcomes ∧
      ∀ e, .disabled e ∈ outcomes → e = .noMatch := by
  induction ids generalizing s with
  | nil => exact ⟨[], rfl, fun _ he => nomatch he⟩
  | cons id ids ih =>
    obtain ⟨outcome, hok, hcause⟩ := h.enqueue hfits id
    have hnext : (s.enqueue id now).2.Intact := h.apply (a := ⟨_, .enqueue id now⟩) trivial
    obtain ⟨outcomes, hoks, hcauses⟩ := ih hnext
    refine ⟨outcome :: outcomes, ?_, fun e he => ?_⟩
    · have hstep : (Scheduler.fireJobs now (id :: ids)).runStore s =
          ((Scheduler.fireJobs now ids).andThen fun outcomes =>
            done (.ok (outcome :: outcomes))).runStore (s.enqueue id now).2 := by
        rw [Scheduler.fireJobs, runStore_perform]
        simp only [Statement.run, hok]
      rw [hstep, runStore_andThen_ok (Prod.ext hoks rfl)]
      rfl
    · rcases List.mem_cons.1 he with rfl | he
      · exact (hcause e rfl).1
      · exact hcauses e he

/-- The only error that a pass reports. -/
theorem tick (h : s.Intact) (hfits : Cron.WindowFits now) :
    ∃ outcomes, ((tick now).runStore s).1 = .ok outcomes ∧
      ∀ e, .disabled e ∈ outcomes → e = .noMatch := by
  have hfill := runStore_fillNextRuns h.jobs_nodup hfits
  have honly : (fillNextRuns now s.jobsWithoutNextRun).Only fun _ st => st.SavesNormal :=
    only_fillNextRuns (fun _ _ _ _ => trivial) fun _ _ _ _ => trivial
  have hfilled : ((fillNextRuns now s.jobsWithoutNextRun).runStore s).2.Intact :=
    honly.keeps (I := Intact) (fun γ st _ hst hx => hx.apply (a := ⟨γ, st⟩) hst) h
  rw [hfill] at hfilled
  rw [runStore_tick, runStore_andThen_ok hfill, runStore_fireDue]
  exact hfilled.fireJobs hfits _

end Intact

/-! ### What was saved can be scheduled -/

/-- **Jobs are disabled only when they are out of fires.**  After any operations, within
representable time: the policy of a job is known, and of computing its next fire the only error is
that its cron expression has none in the search window.  Firing a job, a reconciliation and a pass
end without error; whenever one of them disables a job, the job was out of fires, or it was to fire
only once and that fire was recorded. -/
theorem definition_errors (os : List Operation) (hfits : Cron.WindowFits now) :
    (∀ r ∈ (empty.performAll os).jobs, r.decode.policy = .ok .forbid ∧
        ∀ after failure, Cron.WindowFits after → r.decode.nextFire after = .error failure →
          failure = .definition .noMatch ∧ r.cronExpression.isSome = true) ∧
      (∀ id, ∃ outcome s', (empty.performAll os).enqueue id now = (.ok outcome, s') ∧
        (∀ e, outcome = .disabled e → e = .noMatch ∧
          ∃ r ∈ (empty.performAll os).jobs, r.id = id ∧
            ∃ fire ≤ now, r.nextRunAt = some fire ∧ r.OutOfFires fire) ∧
        ∀ r ∈ (empty.performAll os).jobs, r.decode.enabled = true →
          ∀ r' ∈ s'.jobs, r'.id = r.id → r'.decode.enabled = false →
          r.OutOfFires (r.nextRunAt.getD now) ∨
            r.decode.runOnce = true ∧ ∃ run, s'.runs.filter (·.jobId == r.id) =
              (empty.performAll os).runs.filter (·.jobId == r.id) ++ [run]) ∧
      (∃ s', (reconcile now).runStore (empty.performAll os) = (.ok (), s') ∧
        ∀ r ∈ (empty.performAll os).jobs, r.decode.enabled = true →
          ∀ r' ∈ s'.jobs, r'.id = r.id → r'.decode.enabled = false → r.OutOfFires now) ∧
      ∃ outcomes s', (Scheduler.tick now).runStore (empty.performAll os) = (.ok outcomes, s') ∧
        (∀ e, .disabled e ∈ outcomes → e = .noMatch) ∧
        ∀ r ∈ (empty.performAll os).jobs, r.decode.enabled = true →
          ∀ r' ∈ s'.jobs, r'.id = r.id → r'.decode.enabled = false →
          r.OutOfFires (r.nextRunAt.getD now) ∨
            r.decode.runOnce = true ∧ ∃ run, s'.runs.filter (·.jobId == r.id) =
              (empty.performAll os).runs.filter (·.jobId == r.id) ++ [run] := by
  have hintact := intact_performAll os
  -- from here on only intactness counts, and not how the store came about
  generalize empty.performAll os = s at hintact
  have hids := hintact.jobs_nodup
  refine ⟨fun r hr => ⟨(hintact.rows r hr).policy_eq, fun after failure hafter hnext => ?_⟩,
    fun id => ?_, ?_, ?_⟩
  · obtain ⟨hfailure, hout⟩ := (hintact.rows r hr).outOfFires_of_nextFire hafter hnext
    exact ⟨hfailure, hout.cron⟩
  · obtain ⟨outcome, hok, hcause⟩ := hintact.enqueue hfits id
    refine ⟨outcome, _, Prod.ext hok rfl, fun e he => ?_, fun r hr hon r' hr' hid hoff => ?_⟩
    · obtain ⟨hnone, r, hr, hid, fire, hle, hnext, -, hout⟩ := hcause e he
      exact ⟨hnone, r, hr, hid, fire, hle, hnext, hout⟩
    · exact hintact.outOfFires_of_enqueue hfits hr hon hr' hid hoff
  · refine ⟨_, runStore_reconcile hids hfits, fun r hr hon r' hr' hid hoff => ?_⟩
    obtain ⟨y, hy, rfl⟩ := List.mem_map.1 hr'
    obtain rfl := List.inj_on_of_nodup_map hids hy hr (JobRow.reconciled_id.symm.trans hid)
    exact (hintact.rows y hy).outOfFires_of_reconciled hfits hon hoff
  · obtain ⟨outcomes, s', htick, hpassed⟩ := passedInto_tick hids hfits
    obtain ⟨outcomes', hok, hcauses⟩ := hintact.tick hfits
    rw [htick] at hok
    cases hok
    refine ⟨outcomes, s', htick, hcauses, fun r hr hon r' hr' hid hoff => ?_⟩
    rw [hpassed.jobs] at hr'
    obtain ⟨y, hy, rfl⟩ := List.mem_map.1 hr'
    obtain rfl := List.inj_on_of_nodup_map hids hy hr (JobRow.passed_id.symm.trans hid)
    rcases (hintact.rows y hy).outOfFires_of_passed hfits hon hoff with
      hout | ⟨fire, after, hdue, honce, htake⟩
    · exact Or.inl hout
    · obtain ⟨runId, hruns⟩ := hpassed.runs_of hy
      rw [JobRow.dueRuns, hdue] at hruns
      simp only [JobRow.firedRuns, htake] at hruns
      exact Or.inr ⟨honce, _, hruns⟩

/-- A job is saved that is to fire on the 30 February. -/
def thirtiethOfFebruary : List Operation := [.saveJob (.cron "never" "true" "0 0 30 2 *") 0]

/-- The reconciliation disables the job, which is out of fires. -/
theorem definition_errors_thirtieth_of_february :
    Cron.WindowFits 0 ∧
      ∃ s', (reconcile 0).runStore (empty.performAll thirtiethOfFebruary) = (.ok (), s') ∧
        (∃ r' ∈ s'.jobs, r'.id = "job:0" ∧ r'.decode.enabled = false) ∧
        ∀ r ∈ (empty.performAll thirtiethOfFebruary).jobs, r.OutOfFires 0 := by
  have hfits : Cron.WindowFits 0 := by decide
  have hoff : ∃ r' ∈ ((reconcile 0).runStore (empty.performAll thirtiethOfFebruary)).2.jobs,
      r'.id = "job:0" ∧ r'.decode.enabled = false := by decide +kernel
  have hon : ∀ r ∈ (empty.performAll thirtiethOfFebruary).jobs,
      r.id = "job:0" ∧ r.decode.enabled = true := by decide +kernel
  obtain ⟨s', hreconcile, hcause⟩ := (definition_errors thirtiethOfFebruary hfits).2.2.1
  rw [hreconcile] at hoff
  obtain ⟨r', hr', hid, hdisabled⟩ := hoff
  refine ⟨hfits, s', hreconcile, ⟨r', hr', hid, hdisabled⟩, fun r hr => ?_⟩
  exact hcause r hr (hon r hr).2 r' hr' (hid.trans (hon r hr).1.symm) hdisabled

end Store

end Timetable
