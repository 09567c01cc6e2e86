/-
**The bookkeeping of fires.**

The runs of a job are the record of its fires, and the row of the job says which fire was the last
and which comes next.  This module follows both through every statement.  A statement adds at most
one fire to the record of a job, and only firing adds any; as long as no statement writes a next
fire that is not later than the last one, the record of every job grows strictly upwards and the row
of the job agrees with it.

Main definitions:

* `Store.firesOf` — the record of a job, `Statement.recorded` — what a statement adds to it;
* `Store.FiresOnce` — no fire is on record twice, `Store.InStep` — rows agree with the record;
* `Statement.Timely` — a statement does not write a next fire that is not later than the last one.

Main results:

* `Job.lt_nextFire` — the next fire is a later one;
* `Statement.firesOf_run` — **what a statement does to the record**;
* `Statement.firesOnce_run_iff` — no fire gets on record twice exactly when only new ones are added;
* `Statement.inStep_run_iff` — **exactly timely statements keep rows in step with the record**.
-/

import Timetable.Proofs.Cron.Search
import Timetable.Proofs.Store.Identity

set_option autoImplicit false
set_option relaxedAutoImplicit false

namespace Timetable

/-! ### The next fire -/

namespace Job

/-- The next fire is a later one. -/
theorem lt_nextFire {j : Job} {after t : Int} (h : j.nextFire after = .ok t) : after < t := by
  unfold nextFire at h
  split at h
  · unfold nextCronFire at h
    split at h
    · cases h
    · split at h
      · cases h
      · rename_i e _
        cases hnext : e.next after with
        | error failure =>
          rw [hnext] at h
          cases h
        | ok u =>
          rw [hnext] at h
          cases h
          exact Cron.Expression.lt_of_next hnext
  · unfold nextIntervalFire at h
    split at h
    · split at h
      · cases h
        omega
      · cases h
    · cases h

/-- A job that goes on after a fire goes on with a later one. -/
theorem lt_afterFire {j : Job} {fire t : Int} {enabled : Bool}
    (h : j.afterFire fire = .ok (enabled, some t)) : fire < t := by
  unfold afterFire at h
  split at h
  · cases h
  · cases hnext : j.nextFire fire with
    | error failure =>
      rw [hnext] at h
      cases h
    | ok u =>
      rw [hnext] at h
      cases h
      exact lt_nextFire hnext

/-- A fire that has come is the next fire of the job. -/
theorem pendingFire?_eq_some {j : Job} {now fire : Int} (h : j.pendingFire? now = some fire) :
    j.enabled = true ∧ j.nextRunAt = some fire ∧ fire ≤ now := by
  unfold pendingFire? at h
  split at h
  · rename_i henabled
    obtain ⟨hnext, hle⟩ := Option.filter_eq_some_iff.1 h
    exact ⟨henabled, hnext, by simpa using hle⟩
  · cases h

end Job

/-! ### The record of fires -/

namespace Store

/-- The fires of a job on record, in the order in which their runs were created. -/
def firesOf (s : Store) (jobId : String) : List Int :=
  (s.runs.filter (·.jobId == jobId)).map (·.scheduledFor)

/-- No fire of a job is on record twice. -/
def FiresOnce (s : Store) : Prop := ∀ jobId, (s.firesOf jobId).Nodup

theorem firesOf_updateRuns (s : Store) (p : RunRow → Bool) {f : RunRow → RunRow}
    (hjob : ∀ r, (f r).jobId = r.jobId) (hfire : ∀ r, (f r).scheduledFor = r.scheduledFor)
    (jobId : String) : (s.updateRuns p f).firesOf jobId = s.firesOf jobId := by
  have hrows (rows : List RunRow) : (rows.filter (·.jobId == jobId)).map (·.scheduledFor) =
      ((rows.map fun r => (r.jobId, r.scheduledFor)).filter (·.1 == jobId)).map (·.2) := by
    rw [List.filter_map, List.map_map]
    rfl
  have hcolumns := map_updateRuns s p (fun r => (r.jobId, r.scheduledFor)) fun r =>
    Prod.ext (hjob r) (hfire r)
  simp only [firesOf, hrows, hcolumns]

theorem firesOf_addFire (s : Store) (run : Run) (jobId : String) :
    (s.addFire run).firesOf jobId =
      s.firesOf jobId ++ if run.jobId = jobId then [run.scheduledFor] else [] := by
  by_cases h : run.jobId = jobId <;>
    simp [firesOf, addFire, addRun, RunRow.ofRun, List.filter_append, h]

theorem firesOf_deleteJob_of_ne (s : Store) {id jobId : String} (h : jobId ≠ id) :
    (s.deleteJob id).firesOf jobId = s.firesOf jobId := by
  simp only [firesOf, deleteJob]
  split
  · rw [List.filter_filter]
    congr 1
    refine List.filter_congr fun r _ => ?_
    by_cases hr : r.jobId = jobId <;> simp [hr, h]
  · rfl

theorem firesOf_deleteJob_self (s : Store) (id : String) :
    (s.deleteJob id).firesOf id = [] ∨ (s.deleteJob id).firesOf id = s.firesOf id := by
  simp only [firesOf, deleteJob]
  split
  · refine Or.inl (List.map_eq_nil_iff.2 (List.filter_eq_nil_iff.2 ?_))
    intro r hr
    simpa using (List.mem_filter.1 hr).2
  · exact Or.inr rfl

/-- When no fire is on record twice, a run of a job is told apart by its fire. -/
theorem FiresOnce.eq_of_scheduledFor_eq {s : Store} (h : s.FiresOnce) {r r' : RunRow}
    (hr : r ∈ s.runs) (hr' : r' ∈ s.runs) (hjob : r'.jobId = r.jobId)
    (hfire : r'.scheduledFor = r.scheduledFor) : r' = r := by
  have hmem {x : RunRow} (hx : x ∈ s.runs) (hxjob : x.jobId = r.jobId) :
      x ∈ s.runs.filter (·.jobId == r.jobId) := List.mem_filter.2 ⟨hx, by simpa using hxjob⟩
  exact List.inj_on_of_nodup_map (h r.jobId) (hmem hr' hjob) (hmem hr rfl) hfire

/-- A job that is not there has no fires on record. -/
theorem Identified.firesOf_eq_nil {s : Store} (h : s.Identified) {jobId : String}
    (hjob : jobId ∉ s.jobs.map (·.id)) : s.firesOf jobId = [] := by
  refine List.map_eq_nil_iff.2 (List.filter_eq_nil_iff.2 ?_)
  intro r hr heq
  have hown := h.runs_owned r.jobId (List.mem_map_of_mem hr)
  rw [beq_iff_eq.1 heq] at hown
  exact hjob hown

end Store

namespace Statement

variable {α : Type}

/-- The fires of a job that a statement puts on record. -/
def recorded {α : Type} : Statement α → Store → String → List Int
  | enqueue id now, s, jobId =>
    match (s.enqueue id now).1 with
    | .ok (.queued run) | .ok (.skipped run) =>
      if run.jobId = jobId then [run.scheduledFor] else []
    | .ok .notDue | .ok (.disabled _) | .error _ => []
  | _, _, _ => []

/-- **What a statement does to the record**: the fires of a job go as a whole, or those that the
statement records come after them. -/
theorem firesOf_run (st : Statement α) (s : Store) (jobId : String) :
    (st.run s).2.firesOf jobId = s.firesOf jobId ++ st.recorded s jobId ∨
      (st.run s).2.firesOf jobId = [] ∧ st.recorded s jobId = [] := by
  cases st with
  | deleteJob id =>
    simp only [recorded, List.append_nil, and_true]
    by_cases h : jobId = id
    · subst h
      exact (s.firesOf_deleteJob_self jobId).symm
    · exact Or.inl (s.firesOf_deleteJob_of_ne h)
  | enqueue id now =>
    refine Or.inl ?_
    obtain ⟨hsame, hanswer⟩ | ⟨e, hdisabled⟩ |
        ⟨r, fire, enabled, next, busy, -, -, -, -, -, hfired⟩ :=
      s.enqueue_cases id now
    · rcases hanswer with hanswer | hanswer <;>
        simp only [run, recorded, hsame, hanswer, List.append_nil]
    · simp only [run, recorded, hdisabled, List.append_nil]
      rfl
    · simp only [run, recorded, hfired]
      cases busy <;> exact s.firesOf_addFire _ jobId
  | claim runId now =>
    simp only [recorded, List.append_nil]
    refine Or.inl (s.firesOf_updateRuns _ ?_ ?_ jobId) <;> exact fun _ => rfl
  | finish runId status error summary now =>
    simp only [recorded, List.append_nil]
    refine Or.inl (s.firesOf_updateRuns _ ?_ ?_ jobId) <;> exact fun _ => rfl
  | failRunning message now =>
    simp only [recorded, List.append_nil]
    refine Or.inl (s.firesOf_updateRuns _ ?_ ?_ jobId) <;> exact fun _ => rfl
  | saveJob spec now =>
    simp only [recorded, List.append_nil, run, Store.saveJob]
    exact Or.inl (by split <;> rfl)
  | _ => exact Or.inl (List.append_nil _).symm

/-- A statement records at most one fire of a job. -/
theorem recorded_nodup (st : Statement α) (s : Store) (jobId : String) :
    (st.recorded s jobId).Nodup := by
  unfold recorded
  repeat' split
  all_goals simp

/-- The fires that a statement records are not on record yet. -/
def FiresAnew (st : Statement α) (s : Store) : Prop :=
  ∀ jobId, ∀ fire ∈ st.recorded s jobId, fire ∉ s.firesOf jobId

/-- **No fire gets on record twice exactly when only new ones are added.** -/
theorem firesOnce_run_iff (st : Statement α) {s : Store} (h : s.FiresOnce) :
    (st.run s).2.FiresOnce ↔ st.FiresAnew s := by
  constructor
  · intro honce jobId fire hfire
    rcases st.firesOf_run s jobId with heq | ⟨-, hnil⟩
    · have hnodup := honce jobId
      rw [heq] at hnodup
      exact fun hmem => (List.nodup_append'.1 hnodup).2.2 hmem hfire
    · rw [hnil] at hfire
      cases hfire
  · intro hnew jobId
    rcases st.firesOf_run s jobId with heq | ⟨hnil, -⟩
    · rw [heq]
      exact List.nodup_append'.2 ⟨h jobId, st.recorded_nodup s jobId,
        fun fire hmem hfire => hnew jobId fire hfire hmem⟩
    · rw [hnil]
      exact List.nodup_nil

end Statement

/-! ### Rows in step with the record -/

/-- **The row of a job agrees with the record of its fires**: the record grows strictly upwards, the
last fire of the row is the last one on record, and the next fire is a later one. -/
structure JobRow.InStep (r : JobRow) (fires : List Int) : Prop where
  /-- Later runs stand for later fires. -/
  advancing : fires.Pairwise (· < ·)
  /-- The last fire is on record, at the end. -/
  last : r.lastRunAt = fires.getLast?
  /-- The next fire has not been yet. -/
  next : ∀ last fire, r.lastRunAt = some last → r.nextRunAt = some fire → last < fire

namespace JobRow.InStep

variable {r r' : JobRow} {fires : List Int}

theorem nil (h : r.lastRunAt = none) : r.InStep [] where
  advancing := List.Pairwise.nil
  last := h
  next last fire hlast := by
    rw [h] at hlast
    cases hlast

/-- Rows with the same last fire agree with the same record, as long as the next fire is later. -/
theorem of_lastRunAt_eq (h : r.InStep fires) (hlast : r'.lastRunAt = r.lastRunAt)
    (hnext : ∀ last fire, r'.lastRunAt = some last → r'.nextRunAt = some fire → last < fire) :
    r'.InStep fires where
  advancing := h.advancing
  last := hlast.trans h.last
  next := hnext

/-- The last fire of a row is the latest one on record. -/
theorem mem_and_le (h : r.InStep fires) {last : Int} (hlast : r.lastRunAt = some last) :
    last ∈ fires ∧ ∀ t ∈ fires, t ≤ last := by
  obtain ⟨earlier, rfl⟩ := List.getLast?_eq_some_iff.1 (h.last.symm.trans hlast)
  refine ⟨by simp, fun t ht => ?_⟩
  rcases List.mem_append.1 ht with hearlier | hend
  · exact le_of_lt ((List.pairwise_append.1 h.advancing).2.2 t hearlier last (by simp))
  · exact le_of_eq (List.mem_singleton.1 hend)

theorem lastRunAt_eq_none_iff (h : r.InStep fires) : r.lastRunAt = none ↔ fires = [] := by
  rw [h.last, List.getLast?_eq_none_iff]

/-- The next fire is later than everything on record. -/
theorem lt_nextRunAt (h : r.InStep fires) {fire : Int} (hfire : r.nextRunAt = some fire) :
    ∀ t ∈ fires, t < fire := by
  intro t ht
  cases hlast : r.lastRunAt with
  | none =>
    rw [h.lastRunAt_eq_none_iff.1 hlast] at ht
    cases ht
  | some last => exact lt_of_le_of_lt ((h.mem_and_le hlast).2 t ht) (h.next last fire hlast hfire)

/-- The next fire is put on record, and the one after it takes its place. -/
theorem record (h : r.InStep fires) {fire : Int} (hfire : r.nextRunAt = some fire)
    (hlast : r'.lastRunAt = some fire) (hnext : ∀ t, r'.nextRunAt = some t → fire < t) :
    r'.InStep (fires ++ [fire]) where
  advancing := List.pairwise_append.2 ⟨h.advancing, List.pairwise_singleton _ _, fun t ht u hu => by
    rw [List.mem_singleton.1 hu]
    exact h.lt_nextRunAt hfire t ht⟩
  last := by rw [hlast, List.getLast?_concat]
  next last t hlast' ht := by
    rw [hlast] at hlast'
    cases hlast'
    exact hnext t ht

end JobRow.InStep

namespace Store

/-- **Every job is in step with the record of its fires.** -/
def InStep (s : Store) : Prop := ∀ r ∈ s.jobs, r.InStep (s.firesOf r.id)

theorem inStep_empty : empty.InStep := fun _ h => nomatch h

/-- When every job is in step, the fires of a job are on record in ascending order. -/
theorem InStep.firesOf_pairwise {s : Store} (h : s.InStep) (hid : s.Identified) (jobId : String) :
    (s.firesOf jobId).Pairwise (· < ·) := by
  by_cases hjob : jobId ∈ s.jobs.map (·.id)
  · obtain ⟨r, hr, rfl⟩ := List.mem_map.1 hjob
    exact (h r hr).advancing
  · rw [hid.firesOf_eq_nil hjob]
    exact List.Pairwise.nil

/-- When every job is in step, no fire is on record twice. -/
theorem InStep.firesOnce {s : Store} (h : s.InStep) (hid : s.Identified) : s.FiresOnce :=
  fun jobId => (h.firesOf_pairwise hid jobId).imp fun hlt => ne_of_lt hlt

/-- Changing the rows with an identifier keeps jobs in step when it keeps those rows in step. -/
theorem InStep.updateJob {s s' : Store} {id : String} {f : JobRow → JobRow} (h : s.InStep)
    (hf : ∀ r, (f r).id = r.id) (hother : ∀ jobId, jobId ≠ id → s'.firesOf jobId = s.firesOf jobId)
    (hjobs : s'.jobs = s.jobs)
    (hself : ∀ r ∈ s.jobs, r.id = id → (f r).InStep (s'.firesOf id)) :
    (s'.updateJob id f).InStep := by
  intro r' hr'
  obtain ⟨r, hr, rfl⟩ := List.mem_map.1 hr'
  rw [hjobs] at hr
  by_cases hid : r.id = id
  · simp only [hid, beq_self_eq_true, if_true, hf]
    exact hself r hr hid
  · have hne : ¬(r.id == id) = true := by simpa using hid
    simp only [hne]
    exact (hother r.id hid).symm ▸ h r hr

theorem InStep.updateRuns {s : Store} (h : s.InStep) (p : RunRow → Bool) {f : RunRow → RunRow}
    (hjob : ∀ r, (f r).jobId = r.jobId) (hfire : ∀ r, (f r).scheduledFor = r.scheduledFor) :
    (s.updateRuns p f).InStep := by
  intro r hr
  rw [firesOf_updateRuns s p hjob hfire]
  exact h r hr

theorem InStep.saveJob {s : Store} (h : s.InStep) (hid : s.Identified) (spec : JobSpec)
    (now : Int) : (s.saveJob spec now).InStep := by
  unfold Store.saveJob
  split
  · intro r' hr'
    obtain ⟨r, hr, rfl⟩ := List.mem_map.1 hr'
    have hrow : r.InStep (s.firesOf r.id) := h r hr
    split
    · exact hrow.of_lastRunAt_eq rfl fun _ _ _ hnext => nomatch hnext
    · exact hrow
  · intro r hr
    rcases List.mem_append.1 hr with hold | hnew
    · exact h r hold
    · obtain rfl := List.mem_singleton.1 hnew
      -- the new identifier was never given to a job, so no run can refer to it
      have hfires : s.firesOf (jobIdOfSerial s.jobSerial) = [] :=
        hid.firesOf_eq_nil hid.nextJobId_notMem
      exact hfires.symm ▸ JobRow.InStep.nil rfl

theorem InStep.deleteJob {s : Store} (h : s.InStep) (id : String) : (s.deleteJob id).InStep := by
  intro r hr
  obtain ⟨hmem, hne⟩ := List.mem_filter.1 hr
  rw [firesOf_deleteJob_of_ne s (by simpa using hne)]
  exact h r hmem

theorem InStep.enqueue {s : Store} (h : s.InStep) (hid : s.Identified) (id : String) (now : Int) :
    (s.enqueue id now).2.InStep := by
  obtain ⟨hsame, -⟩ | ⟨e, hdisabled⟩ |
      ⟨r, fire, enabled, next, busy, hr, rfl, hfire, hafter, -, hfired⟩ := s.enqueue_cases id now
  · rw [hsame]
    exact h
  · rw [hdisabled]
    refine h.updateJob (fun _ => rfl) (fun _ _ => rfl) rfl fun r hr hrid => ?_
    subst hrid
    exact (h r hr).of_lastRunAt_eq rfl (h r hr).next
  · rw [hfired]
    have hnext : r.nextRunAt = some fire := (Job.pendingFire?_eq_some hfire).2.1
    refine h.updateJob (fun _ => rfl) (fun jobId hne => ?_) rfl fun r' hr' hrid => ?_
    · rw [firesOf_addFire, Job.firedRun_jobId, JobRow.decode_id, if_neg (Ne.symm hne),
        List.append_nil]
    · obtain rfl := hid.row_unique hr' hr hrid
      rw [firesOf_addFire, Job.firedRun_jobId, Job.firedRun_scheduledFor, JobRow.decode_id,
        if_pos rfl]
      -- what is recorded is the next fire of the row, which is later than all before it
      refine (h r' hr).record hnext rfl fun t ht => ?_
      exact Job.lt_afterFire (hafter.trans (congrArg (fun n => Except.ok (enabled, n)) ht))

end Store

namespace Statement

variable {α : Type}

/-- A statement does not write a next fire that is not later than the last fire of the job. -/
def Timely {α : Type} : Statement α → Store → Prop
  | setNextRun id next _, s =>
    ∀ r ∈ s.jobs, r.id = id → ∀ last fire, r.lastRunAt = some last → next = some fire → last < fire
  | _, _ => True

/-- Timely statements keep rows in step with the record. -/
theorem inStep_run (st : Statement α) {s : Store} (hid : s.Identified) (h : s.InStep)
    (htimely : st.Timely s) : (st.run s).2.InStep := by
  cases st with
  | saveJob spec now => exact h.saveJob hid spec now
  | disableJob id now =>
    refine h.updateJob (fun _ => rfl) (fun _ _ => rfl) rfl fun r hr hrid => ?_
    subst hrid
    exact (h r hr).of_lastRunAt_eq rfl fun _ _ _ hnext => nomatch hnext
  | deleteJob id => exact h.deleteJob id
  | setNextRun id next now =>
    refine h.updateJob (fun _ => rfl) (fun _ _ => rfl) rfl fun r hr hrid => ?_
    subst hrid
    exact (h r hr).of_lastRunAt_eq rfl fun last fire => htimely r hr rfl last fire
  | disableInvalid id now =>
    refine h.updateJob (fun _ => rfl) (fun _ _ => rfl) rfl fun r hr hrid => ?_
    subst hrid
    exact (h r hr).of_lastRunAt_eq rfl (h r hr).next
  | enqueue jobId now => exact h.enqueue hid jobId now
  | claim runId now => refine h.updateRuns _ ?_ ?_ <;> exact fun _ => rfl
  | finish runId status error summary now => refine h.updateRuns _ ?_ ?_ <;> exact fun _ => rfl
  | failRunning message now => refine h.updateRuns _ ?_ ?_ <;> exact fun _ => rfl
  | _ => exact h

/-- **Rows stay in step with the record exactly under timely statements.** -/
theorem inStep_run_iff (st : Statement α) {s : Store} (hid : s.Identified) (h : s.InStep) :
    (st.run s).2.InStep ↔ st.Timely s := by
  refine ⟨fun hrun => ?_, st.inStep_run hid h⟩
  cases st with
  | setNextRun id next now =>
    rintro r hr rfl last fire hlast hnext
    have hmem : ({ r with nextRunAt := next } : JobRow).touch now ∈
        ((setNextRun r.id next now).run s).2.jobs :=
      List.mem_map.2 ⟨r, hr, by rw [beq_self_eq_true, if_pos rfl]⟩
    exact (hrun _ hmem).next last fire hlast hnext
  | _ => trivial

end Statement

end Timetable
