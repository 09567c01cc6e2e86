/-
**The life of a job.**

A job is created when it is saved under a name that is on no row, and from then on its row is
changed in six ways: it is saved anew, disabled by somebody, disabled because it cannot be
scheduled, given a next fire, or one of its fires is taken.  This module says so of one statement —
where the row of a job, a run and a definition come from — and follows a job through any history by
its identifier.

Main definitions:

* `Statement.saves`, `Statement.setsNext` — a statement saves a job, or sets its next fire;
* `JobRow.moveOn` — a row whose fire was taken;
* `JobRow.Change` — **what one statement can do to a job**.

Main results:

* `Access.mem_jobs` — where the row of a job comes from;
* `Access.mem_runs` — where a run comes from;
* `Operation.only_savedBy` — where a definition comes from;
* `JobRow.Change.enabled_of_disabled` — only saving a job enables it;
* `Store.JobsNumbered.change` — what has the identifier of a job is that job, changed;
* `Store.JobsNumbered.follow` — **a job is followed by its identifier through a history**.
-/

import Timetable.Proofs.Store.Ledger
import Timetable.Proofs.Store.Numbered

set_option autoImplicit false
set_option relaxedAutoImplicit false

namespace Timetable

open Program

/-! ### Saving and scheduling -/

namespace Statement

/-- A statement saves the job with a name. -/
def saves {α : Type} (name : String) : Statement α → Bool
  | saveJob spec _ => spec.name == name
  | _ => false

/-- A statement sets the next fire of a job. -/
def setsNext {α : Type} (jobId : String) : Statement α → Bool
  | setNextRun id _ _ => id == jobId
  | _ => false

end Statement

/-! ### One job -/

namespace JobRow

/-- A row whose fire was taken, with what is to become of the job. -/
def moveOn (r : JobRow) (fire : Int) (after : Bool × Option Int) (now : Int) : JobRow :=
  ({ r with
      enabled := flagNumber after.1, lastRunAt := some fire, nextRunAt := after.2 } : JobRow).touch
      now

/-- **What one statement can do to a job.** -/
inductive Change : Access → JobRow → JobRow → Prop where
  /-- Nothing happens to the job. -/
  | stay (a : Access) (r : JobRow) : Change a r r
  /-- The definition of the job is replaced. -/
  | save (r : JobRow) (spec : JobSpec) (now : Int) (named : spec.name = r.name) :
    Change ⟨_, .saveJob spec now⟩ r (r.redefine spec now)
  /-- Somebody disables the job. -/
  | disable (r : JobRow) (now : Int) :
    Change ⟨_, .disableJob r.id now⟩ r
      (({ r with enabled := 0, nextRunAt := none } : JobRow).touch now)
  /-- The next fire of the job is set. -/
  | reschedule (r : JobRow) (next : Option Int) (now : Int) :
    Change ⟨_, .setNextRun r.id next now⟩ r (({ r with nextRunAt := next } : JobRow).touch now)
  /-- The job is disabled, as its next fire could not be computed. -/
  | giveUp (r : JobRow) (now : Int) :
    Change ⟨_, .disableInvalid r.id now⟩ r (({ r with enabled := 0 } : JobRow).touch now)
  /-- The job is disabled, as its fire could not be taken. -/
  | miss (r : JobRow) (now : Int) :
    Change ⟨_, .enqueue r.id now⟩ r (({ r with enabled := 0 } : JobRow).touch now)
  /-- A fire of the job is taken. -/
  | fire (r : JobRow) (now : Int) {fire : Int} {after : Bool × Option Int}
    (pending : r.decode.pendingFire? now = some fire)
    (taken : r.decode.afterFire fire = .ok after) :
    Change ⟨_, .enqueue r.id now⟩ r (r.moveOn fire after now)

namespace Change

variable {a : Access} {r r' : JobRow}

theorem id_eq (h : r.Change a r') : r'.id = r.id := by
  cases h <;> rfl

theorem name_eq (h : r.Change a r') : r'.name = r.name := by
  cases h <;> rfl

theorem createdAt_eq (h : r.Change a r') : r'.createdAt = r.createdAt := by
  cases h <;> rfl

/-- The time of the last change never goes back, whatever the clocks show. -/
theorem updatedAt_le (h : r.Change a r') : r.updatedAt ≤ r'.updatedAt := by
  cases h with
  | stay => exact le_refl _
  | _ => exact le_max_left _ _

/-- **Only saving a job enables it**, and only under an enabled definition. -/
theorem enabled_of_disabled (h : r.Change a r') (hoff : r.decode.enabled = false)
    (hon : r'.decode.enabled = true) :
    ∃ spec now, a = ⟨Unit, .saveJob spec now⟩ ∧ spec.name = r.name ∧ spec.enabled = true := by
  cases h with
  | stay =>
    rw [hoff] at hon
    cases hon
  | @save _ spec now named =>
    refine ⟨spec, now, rfl, named, ?_⟩
    rw [← flagSet_flagNumber spec.enabled]
    exact hon
  | disable => cases hon
  | reschedule =>
    have hsame : r.decode.enabled = true := hon
    rw [hoff] at hsame
    cases hsame
  | giveUp => cases hon
  | miss => cases hon
  | fire _ _ pending =>
    rw [(Job.pendingFire?_eq_some pending).1] at hoff
    cases hoff

/-- A job that is disabled stays disabled, unless it is saved. -/
theorem enabled_eq_false (h : r.Change a r') (hsave : a.2.saves r.name = false)
    (hoff : r.decode.enabled = false) :
    r'.decode.enabled = false := by
  cases hon : r'.decode.enabled with
  | false => rfl
  | true =>
    obtain ⟨spec, now, rfl, hname, -⟩ := h.enabled_of_disabled hoff hon
    exact absurd hname (by simpa [Statement.saves] using hsave)

/-- A job that is disabled and has no next fire gets none, unless one is set. -/
theorem nextRunAt_eq_none (h : r.Change a r')
    (hset : a.2.setsNext r.id = false) (hoff : r.decode.enabled = false)
    (hnext : r.nextRunAt = none) : r'.nextRunAt = none := by
  cases h with
  | reschedule => simp [Statement.setsNext] at hset
  | fire _ _ pending =>
    rw [(Job.pendingFire?_eq_some pending).1] at hoff
    cases hoff
  | stay => exact hnext
  | giveUp => exact hnext
  | miss => exact hnext
  | _ => rfl

/-- Only saving a job changes whether it is to fire only once. -/
theorem runOnce_eq (h : r.Change a r') (hsave : a.2.saves r.name = false) :
    r'.decode.runOnce = r.decode.runOnce := by
  cases h with
  | @save _ spec now named => simp [Statement.saves, named] at hsave
  | _ => rfl

end Change

end JobRow

/-! ### One statement -/

namespace Access

open Store

variable {a : Access} {s : Store}

/-- What changing the rows with an identifier leaves, when the rows with it are changed as rows
are. -/
theorem mem_updateJob_change {id : String} {f : JobRow → JobRow} {r' : JobRow}
    (hr' : r' ∈ (s.updateJob id f).jobs) (hf : ∀ r ∈ s.jobs, r.id = id → r.Change a (f r)) :
    ∃ r ∈ s.jobs, r.Change a r' := by
  rcases mem_updateJob hr' with ⟨r, hr, hid, rfl⟩ | ⟨hr, -⟩
  · exact ⟨r, hr, hf r hr hid⟩
  · exact ⟨r', hr, .stay a r'⟩

/-- **Where the row of a job comes from**: it was there before the statement, or the statement saved
a job under a name that was on no row. -/
theorem mem_jobs (hs : (s.jobs.map (·.id)).Nodup) {r' : JobRow} (hr' : r' ∈ (a.apply s).jobs) :
    (∃ r ∈ s.jobs, r.Change a r') ∨
      ∃ spec now, a = ⟨Unit, .saveJob spec now⟩ ∧ (∀ r ∈ s.jobs, r.name ≠ spec.name) ∧
        r' = JobRow.ofSpec (jobIdOfSerial s.jobSerial) spec now := by
  obtain ⟨α, st⟩ := a
  cases st with
  | saveJob spec now =>
    change r' ∈ (s.saveJob spec now).jobs at hr'
    unfold Store.saveJob at hr'
    split at hr'
    · obtain ⟨r, hr, rfl⟩ := List.mem_map.1 hr'
      refine Or.inl ⟨r, hr, ?_⟩
      split
      · rename_i hname
        exact .save r spec now (beq_iff_eq.1 hname).symm
      · exact .stay _ r
    · rename_i hnone
      rcases List.mem_append.1 hr' with hold | hnew
      · exact Or.inl ⟨r', hold, .stay _ r'⟩
      · refine Or.inr ⟨spec, now, rfl, ?_, List.mem_singleton.1 hnew⟩
        simpa using hnone
  | disableJob id now =>
    refine Or.inl (mem_updateJob_change hr' fun r _ hid => ?_)
    subst hid
    exact .disable r now
  | deleteJob id => exact Or.inl ⟨r', (List.mem_filter.1 hr').1, .stay _ r'⟩
  | setNextRun id next now =>
    refine Or.inl (mem_updateJob_change hr' fun r _ hid => ?_)
    subst hid
    exact .reschedule r next now
  | disableInvalid id now =>
    refine Or.inl (mem_updateJob_change hr' fun r _ hid => ?_)
    subst hid
    exact .giveUp r now
  | enqueue id now =>
    refine Or.inl ?_
    change r' ∈ (s.enqueue id now).2.jobs at hr'
    obtain ⟨hsame, -⟩ | ⟨e, hdisabled⟩ |
        ⟨r, fire, enabled, next, busy, hr, rfl, hpending, htaken, -, hfired⟩ :=
          s.enqueue_cases id now
    · rw [hsame] at hr'
      exact ⟨r', hr', .stay _ r'⟩
    · rw [hdisabled] at hr'
      refine mem_updateJob_change hr' fun r _ hid => ?_
      subst hid
      exact .miss r now
    · rw [hfired] at hr'
      refine mem_updateJob_change (s := s.addFire _) hr' fun y hy hid => ?_
      obtain rfl : y = r := List.inj_on_of_nodup_map hs hy hr hid
      exact .fire y now hpending htaken
  | _ => exact Or.inl ⟨r', hr', .stay _ r'⟩

/-- **Where a run comes from**: it was there before the statement, as far as what is settled when a
run is created, or the statement took a fire of its job, which was enabled. -/
theorem mem_runs {run : RunRow} (hrun : run ∈ (a.apply s).runs) :
    (∃ old ∈ s.runs, run.origin = old.origin) ∨
      ∃ r ∈ s.jobs, ∃ now fire after, a = ⟨EnqueueOutcome, .enqueue r.id now⟩ ∧
        r.decode.pendingFire? now = some fire ∧ r.decode.afterFire fire = .ok after ∧
        run.jobId = r.id ∧ run.jobUpdatedAt = r.updatedAt ∧ (a.apply s).runs = s.runs ++ [run] ∧
        (a.apply s).jobs = (s.updateJob r.id (·.moveOn fire after now)).jobs := by
  have hupdate (p : RunRow → Bool) {f : RunRow → RunRow} (hf : ∀ r, (f r).origin = r.origin)
      (h : run ∈ (s.updateRuns p f).runs) : ∃ old ∈ s.runs, run.origin = old.origin := by
    obtain ⟨old, hold, rfl⟩ := List.mem_map.1 h
    refine ⟨old, hold, ?_⟩
    split
    · exact hf old
    · rfl
  obtain ⟨α, st⟩ := a
  cases st with
  | saveJob spec now =>
    refine Or.inl ⟨run, ?_, rfl⟩
    change run ∈ (s.saveJob spec now).runs at hrun
    unfold Store.saveJob at hrun
    split at hrun <;> exact hrun
  | deleteJob id =>
    refine Or.inl ⟨run, ?_, rfl⟩
    change run ∈ (s.deleteJob id).runs at hrun
    simp only [Store.deleteJob] at hrun
    split at hrun
    · exact (List.mem_filter.1 hrun).1
    · exact hrun
  | enqueue id now =>
    obtain ⟨hsame, -⟩ | ⟨e, hdisabled⟩ |
        ⟨r, fire, enabled, next, busy, hr, rfl, hpending, htaken, -, hfired⟩ :=
          s.enqueue_cases id now
    · refine Or.inl ⟨run, ?_, rfl⟩
      change run ∈ (s.enqueue id now).2.runs at hrun
      rwa [hsame] at hrun
    · refine Or.inl ⟨run, ?_, rfl⟩
      change run ∈ (s.enqueue id now).2.runs at hrun
      rwa [hdisabled] at hrun
    · have happly : Access.apply ⟨_, .enqueue r.id now⟩ s =
          (s.addFire (r.decode.firedRun busy (runIdOfSerial s.runSerial) fire now)).recordFire
            r.id enabled fire next now := congrArg Prod.snd hfired
      rw [happly] at hrun ⊢
      rcases List.mem_append.1 hrun with hold | hnew
      · exact Or.inl ⟨run, hold, rfl⟩
      · rw [List.mem_singleton.1 hnew]
        refine Or.inr ⟨r, hr, now, fire, (enabled, next), rfl, hpending, htaken, ?_, ?_, rfl,
          rfl⟩ <;>
          cases busy <;> rfl
  | claim runId now => exact Or.inl (hupdate _ (fun _ => by rfl) hrun)
  | finish runId status error summary now => exact Or.inl (hupdate _ (fun _ => by rfl) hrun)
  | failRunning message now => exact Or.inl (hupdate _ (fun _ => by rfl) hrun)
  | _ => exact Or.inl ⟨run, hrun, rfl⟩

end Access

/-! ### Where definitions come from -/

/-- A statement that saves a job does so for an operation that was to save it. -/
def Statement.SavedBy {α : Type} (o : Operation) : Statement α → Prop
  | saveJob v now => ∃ spec, o = .saveJob spec now ∧ spec.validate = .ok v
  | _ => True

/-- **Definitions come from operations that save a job**, and were checked. -/
theorem Operation.only_savedBy (o : Operation) : o.program.Only fun _ st => st.SavedBy o := by
  cases o with
  | saveJob spec now =>
    exact (Management.only_saveJob (fun v hv => ⟨spec, rfl, hv⟩) fun _ => trivial).silent
  | disableJob id now => exact (Management.only_onJob trivial).silent
  | deleteJob id => exact (Management.only_onJob trivial).silent
  | tick now =>
    exact (Scheduler.only_tick trivial (fun _ _ _ => trivial) (fun _ => trivial) trivial
      fun _ => trivial).silent
  | reconcile now =>
    exact (Scheduler.only_reconcile trivial (fun _ _ _ => trivial) fun _ => trivial).silent
  | claimNext now =>
    refine (Only.andThen (Only.attempt trivial) fun found => ?_).silent
    cases found with
    | none => trivial
    | some run => exact Only.andThen (Only.attempt trivial) fun _ => trivial
  | _ => exact (Only.attempt trivial).silent

/-- Whatever a session does comes from an operation that is taken up in it. -/
theorem Session.bound_savedBy {ι : Type} [DecidableEq ι] (s : Store) (turns : List (Turn ι)) :
    ((opening s).play turns).Bound (fun _ st => ∃ i o, .take i o ∈ turns ∧ st.SavedBy o) s :=
  bound_play s fun i o ho => o.only_savedBy.mono fun _ _ hst => ⟨i, o, ho, hst⟩

/-! ### Histories -/

namespace Store

variable {s : Store} {history : List Access}

theorem JobsNumbered.apply (hs : s.JobsNumbered) (a : Access) : (a.apply s).JobsNumbered :=
  hs.run a.2

theorem JobsNumbered.through (hs : s.JobsNumbered) (history : List Access) :
    (s.through history).JobsNumbered := by
  induction history generalizing s with
  | nil => exact hs
  | cons a history ih => exact ih (hs.apply a)

/-- Identifiers of jobs are given in order. -/
theorem jobSerial_le_apply (a : Access) (s : Store) : s.jobSerial ≤ (a.apply s).jobSerial := by
  obtain ⟨α, st⟩ := a
  cases st with
  | saveJob spec now =>
    change s.jobSerial ≤ (s.saveJob spec now).jobSerial
    unfold Store.saveJob
    split
    · exact Nat.le_refl _
    · exact Nat.le_succ _
  | enqueue id now =>
    change s.jobSerial ≤ (s.enqueue id now).2.jobSerial
    obtain ⟨hsame, -⟩ | ⟨e, hdisabled⟩ | ⟨r, fire, enabled, next, busy, -, -, -, -, -, hfired⟩ :=
      s.enqueue_cases id now
    · rw [hsame]
    · rw [hdisabled]
      exact Nat.le_refl _
    · rw [hfired]
      exact Nat.le_refl _
  | _ => exact Nat.le_refl _

/-- **What has the identifier of a job is that job, changed.** -/
theorem JobsNumbered.change (hs : s.JobsNumbered) {a : Access} {r r' : JobRow} (hr : r ∈ s.jobs)
    (hr' : r' ∈ (a.apply s).jobs) (hid : r'.id = r.id) : r.Change a r' := by
  rcases Access.mem_jobs hs.ids hr' with ⟨y, hy, hchange⟩ | ⟨spec, now, -, -, rfl⟩
  · rwa [List.inj_on_of_nodup_map hs.ids hr hy (hid.symm.trans hchange.id_eq)]
  · have hfresh := hs.fresh _ (Nat.le_refl _)
    rw [show jobIdOfSerial s.jobSerial = r.id from hid] at hfresh
    exact absurd (List.mem_map_of_mem hr) hfresh

/-- **A job is followed by its identifier through a history**: what every change of it keeps, as
long as it has the identifier, holds of its row at the end, if it is still there. -/
theorem JobsNumbered.follow (hs : s.JobsNumbered) {P : JobRow → Prop} {r : JobRow} (hr : r ∈ s.jobs)
    (hP : P r) (hstep : ∀ a ∈ history, ∀ y y' : JobRow, y.id = r.id → P y → y.Change a y' → P y') :
    ∀ r' ∈ (s.through history).jobs, r'.id = r.id → P r' := by
  -- the identifier was given before, so no statement on the way gives it to another job
  have hall : ∀ x : Store, x.JobsNumbered → s.jobSerial ≤ x.jobSerial →
      (∀ y ∈ x.jobs, y.id = r.id → P y) → ∀ r' ∈ (x.through history).jobs, r'.id = r.id → P r' := by
    induction history with
    | nil => intro x _ _ hx; exact hx
    | cons a history ih =>
      intro x hx hserial hrows
      refine ih (fun b hb => hstep b (List.mem_cons_of_mem a hb)) (a.apply x) (hx.apply a)
        (Nat.le_trans hserial (jobSerial_le_apply a x)) ?_
      intro y' hy' hid
      rcases Access.mem_jobs hx.ids hy' with ⟨y, hy, hchange⟩ | ⟨spec, now, -, -, rfl⟩
      · have hyid : y.id = r.id := hchange.id_eq.symm.trans hid
        exact hstep a List.mem_cons_self y y' hyid (hrows y hy hyid) hchange
      · have hfresh := hs.fresh x.jobSerial hserial
        rw [show jobIdOfSerial x.jobSerial = r.id from hid] at hfresh
        exact absurd (List.mem_map_of_mem hr) hfresh
  refine hall s hs (Nat.le_refl _) fun y hy hid => ?_
  rwa [List.inj_on_of_nodup_map hs.ids hy hr hid]

/-- **A job is followed as long as it is not saved**: it keeps its name, and what every change of it
keeps that does not save it. -/
theorem JobsNumbered.follow_unsaved (hs : s.JobsNumbered) {P : JobRow → Prop} {r : JobRow}
    (hr : r ∈ s.jobs) (hP : P r) (hsave : ∀ a ∈ history, a.2.saves r.name = false)
    (hstep : ∀ a ∈ history, ∀ y y' : JobRow, y.id = r.id → a.2.saves y.name = false → P y →
      y.Change a y' → P y') :
    ∀ r' ∈ (s.through history).jobs, r'.id = r.id → r'.name = r.name ∧ P r' := by
  refine hs.follow hr ⟨rfl, hP⟩ fun a ha y y' hid hy hchange => ?_
  have hunsaved : a.2.saves y.name = false := by
    rw [hy.1]
    exact hsave a ha
  exact ⟨hchange.name_eq.trans hy.1, hstep a ha y y' hid hunsaved hy.2 hchange⟩

end Store

end Timetable
