/-
**Rows keep their identity.**

Every row is known by its identifier, and runs refer to their job by it.  Nothing that can be asked
of the store ever uses an identifier twice, changes one, or leaves a run behind without its job;
this module states that as one property of stores and shows that every statement keeps it.

Main definitions:

* `Store.Identified` — rows are told apart by their identifiers, and every run has its job;
* `Store.addFire` — a run is added under the next identifier;
* `Job.firedRun` — the run that a fire is recorded as.

Main results:

* `jobIdOfSerial_injective`, `runIdOfSerial_injective` — identifiers are not used twice;
* `Store.enqueue_cases` — **what firing a job can do**;
* `Statement.identified_run` — **every statement keeps rows identified**.
-/

import Mathlib.Data.List.Nodup
import Timetable.Store.Statement

set_option autoImplicit false
set_option relaxedAutoImplicit false

namespace Timetable

/-! ### Identifiers -/

theorem natText_injective {m n : Nat} (h : Text.natText m = Text.natText n) : m = n :=
  Text.decimal_injective (String.ofList_injective h)

theorem jobIdOfSerial_injective {m n : Nat} (h : jobIdOfSerial m = jobIdOfSerial n) : m = n :=
  natText_injective ((String.append_right_inj _).1 h)

theorem runIdOfSerial_injective {m n : Nat} (h : runIdOfSerial m = runIdOfSerial n) : m = n :=
  natText_injective ((String.append_right_inj _).1 h)

/-! ### Firing -/

@[simp] theorem JobRow.decode_id (r : JobRow) : r.decode.id = r.id := rfl

namespace Job

/-- The run that a fire is recorded as: skipped while an earlier run of the job is going. -/
def firedRun (j : Job) (busy : Bool) (id : String) (fire now : Int) : Run :=
  if busy then j.skippedRun id fire now else j.queuedRun id fire now

variable (j : Job) (busy : Bool) (id : String) (fire now : Int)

@[simp] theorem firedRun_id : (j.firedRun busy id fire now).id = id := by
  cases busy <;> rfl

@[simp] theorem firedRun_jobId : (j.firedRun busy id fire now).jobId = j.id := by
  cases busy <;> rfl

@[simp] theorem firedRun_scheduledFor : (j.firedRun busy id fire now).scheduledFor = fire := by
  cases busy <;> rfl

end Job

namespace Store

/-- A run is added under the next identifier. -/
def addFire (s : Store) (run : Run) : Store :=
  { s.addRun (RunRow.ofRun run) with runSerial := s.runSerial + 1 }

/-- A key that no two rows share decides the row. -/
theorem find?_key_eq_some_iff {ρ : Type} {rows : List ρ} {key : ρ → String}
    (hkey : (rows.map key).Nodup) {k : String} {r : ρ} :
    rows.find? (fun x => key x == k) = some r ↔ r ∈ rows ∧ key r = k := by
  constructor
  · exact fun h => ⟨List.mem_of_find?_eq_some h, by simpa using List.find?_some h⟩
  · rintro ⟨hr, rfl⟩
    cases hfound : rows.find? (fun x => key x == key r) with
    | none => simpa using List.find?_eq_none.1 hfound r hr
    | some y =>
      have hy : key y = key r := by simpa using List.find?_some hfound
      rw [List.inj_on_of_nodup_map hkey (List.mem_of_find?_eq_some hfound) hr hy]

theorem jobRow?_eq_some {s : Store} {id : String} {r : JobRow} (h : s.jobRow? id = some r) :
    r ∈ s.jobs ∧ r.id = id :=
  ⟨List.mem_of_find?_eq_some h, by simpa using List.find?_some h⟩

/-- **What firing a job can do**: nothing, or disable the job, or record the fire that has come and
move the bookkeeping of the job on. -/
theorem enqueue_cases (s : Store) (id : String) (now : Int) :
    ((s.enqueue id now).2 = s ∧
        ((s.enqueue id now).1 = .ok .notDue ∨ (s.enqueue id now).1 = .error .outOfTime)) ∨
      (∃ e, s.enqueue id now = (.ok (.disabled e), s.disableInvalid id now)) ∨
      ∃ r fire enabled next busy, r ∈ s.jobs ∧ r.id = id ∧
        r.decode.pendingFire? now = some fire ∧ r.decode.afterFire fire = .ok (enabled, next) ∧
        busy = decide (0 < s.countRunning id) ∧
        s.enqueue id now =
          (.ok (if busy then
              .skipped (r.decode.firedRun busy (runIdOfSerial s.runSerial) fire now)
            else .queued (r.decode.firedRun busy (runIdOfSerial s.runSerial) fire now)),
            (s.addFire (r.decode.firedRun busy (runIdOfSerial s.runSerial) fire now)).recordFire
              id enabled fire next now) := by
  unfold enqueue
  simp only [jobWithId?]
  cases hr : s.jobRow? id with
  | none => exact Or.inl ⟨rfl, Or.inl rfl⟩
  | some r =>
    obtain ⟨hmem, rfl⟩ := jobRow?_eq_some hr
    simp only [Option.map_some]
    cases hfire : r.decode.pendingFire? now with
    | none => exact Or.inl ⟨rfl, Or.inl rfl⟩
    | some fire =>
      simp only []
      cases hpolicy : r.decode.policy with
      | error e => exact Or.inr (Or.inl ⟨e, rfl⟩)
      | ok policy =>
        cases policy with
        | forbid =>
          simp only []
          cases hafter : r.decode.afterFire fire with
          | error failure =>
            cases failure with
            | outOfTime => exact Or.inl ⟨rfl, Or.inr rfl⟩
            | definition e => exact Or.inr (Or.inl ⟨e, rfl⟩)
          | ok after =>
            refine Or.inr (Or.inr ⟨r, fire, after.1, after.2, decide (0 < s.countRunning r.id),
              hmem, rfl, hfire, hafter, rfl, ?_⟩)
            by_cases hbusy : 0 < s.countRunning r.id
            · simp [hbusy, Job.firedRun, addFire, JobRow.decode]
            · simp [hbusy, Job.firedRun, addFire, JobRow.decode]

/-! ### Identified rows -/

/-- **Rows are told apart by their identifiers**, all of which have been issued, and every run has
its job. -/
structure Identified (s : Store) : Prop where
  /-- No two jobs have the same identifier. -/
  jobs_nodup : (s.jobs.map (·.id)).Nodup
  /-- Identifiers of jobs are those of earlier serial numbers. -/
  jobs_issued : ∀ id ∈ s.jobs.map (·.id), ∃ k < s.jobSerial, id = jobIdOfSerial k
  /-- No two runs have the same identifier. -/
  runs_nodup : (s.runs.map (·.id)).Nodup
  /-- Identifiers of runs are those of earlier serial numbers. -/
  runs_issued : ∀ id ∈ s.runs.map (·.id), ∃ k < s.runSerial, id = runIdOfSerial k
  /-- No run is without its job. -/
  runs_owned : ∀ jobId ∈ s.runs.map (·.jobId), jobId ∈ s.jobs.map (·.id)

theorem identified_empty : empty.Identified := by
  constructor <;> simp [empty]

/-! ### Identifiers under the changes of a store -/

/-- Changing some rows leaves a column alone that no change touches. -/
theorem map_column_update {ρ γ : Type} (rows : List ρ) (p : ρ → Bool) {f : ρ → ρ} (column : ρ → γ)
    (hf : ∀ r, column (f r) = column r) :
    (rows.map fun r => if p r then f r else r).map column = rows.map column := by
  rw [List.map_map]
  refine List.map_congr_left fun r _ => ?_
  simp only [Function.comp_apply]
  split
  · exact hf r
  · rfl

theorem map_id_updateJob (s : Store) (id : String) {f : JobRow → JobRow}
    (hf : ∀ r, (f r).id = r.id) : (s.updateJob id f).jobs.map (·.id) = s.jobs.map (·.id) :=
  map_column_update s.jobs (·.id == id) (·.id) hf

theorem map_id_redefine (s : Store) (spec : JobSpec) (now : Int) :
    (s.jobs.map fun r => if r.name == spec.name then r.redefine spec now else r).map (·.id) =
      s.jobs.map (·.id) :=
  map_column_update s.jobs (·.name == spec.name) (·.id) fun _ => rfl

theorem map_updateRuns {γ : Type} (s : Store) (p : RunRow → Bool) {f : RunRow → RunRow}
    (column : RunRow → γ) (hf : ∀ r, column (f r) = column r) :
    (s.updateRuns p f).runs.map column = s.runs.map column :=
  map_column_update s.runs p column hf

namespace Identified

variable {s : Store}

theorem updateJob (h : s.Identified) (id : String) {f : JobRow → JobRow}
    (hf : ∀ r, (f r).id = r.id) : (s.updateJob id f).Identified where
  jobs_nodup := by rw [map_id_updateJob s id hf]; exact h.jobs_nodup
  jobs_issued := by rw [map_id_updateJob s id hf]; exact h.jobs_issued
  runs_nodup := h.runs_nodup
  runs_issued := h.runs_issued
  runs_owned := by rw [map_id_updateJob s id hf]; exact h.runs_owned

theorem updateRuns (h : s.Identified) (p : RunRow → Bool) {f : RunRow → RunRow}
    (hid : ∀ r, (f r).id = r.id) (hjob : ∀ r, (f r).jobId = r.jobId) :
    (s.updateRuns p f).Identified where
  jobs_nodup := h.jobs_nodup
  jobs_issued := h.jobs_issued
  runs_nodup := by rw [map_updateRuns s p _ hid]; exact h.runs_nodup
  runs_issued := by rw [map_updateRuns s p _ hid]; exact h.runs_issued
  runs_owned := by rw [map_updateRuns s p _ hjob]; exact h.runs_owned

/-- Rows of jobs with the same identifier are the same. -/
theorem row_unique (h : s.Identified) {r r' : JobRow} (hr : r ∈ s.jobs) (hr' : r' ∈ s.jobs)
    (heq : r.id = r'.id) : r = r' :=
  List.inj_on_of_nodup_map h.jobs_nodup hr hr' heq

/-- The next identifier of a job is on no row. -/
theorem nextJobId_notMem (h : s.Identified) : jobIdOfSerial s.jobSerial ∉ s.jobs.map (·.id) := by
  intro hmem
  obtain ⟨k, hk, heq⟩ := h.jobs_issued _ hmem
  have := jobIdOfSerial_injective heq
  omega

/-- The next identifier of a run is on no row. -/
theorem nextRunId_notMem (h : s.Identified) : runIdOfSerial s.runSerial ∉ s.runs.map (·.id) := by
  intro hmem
  obtain ⟨k, hk, heq⟩ := h.runs_issued _ hmem
  have := runIdOfSerial_injective heq
  omega

theorem saveJob (h : s.Identified) (spec : JobSpec) (now : Int) :
    (s.saveJob spec now).Identified := by
  unfold Store.saveJob
  split
  · refine ⟨?_, ?_, h.runs_nodup, h.runs_issued, ?_⟩ <;> simp only [map_id_redefine]
    · exact h.jobs_nodup
    · exact h.jobs_issued
    · exact h.runs_owned
  · refine ⟨?_, ?_, h.runs_nodup, h.runs_issued, ?_⟩ <;>
      simp only [List.map_append, List.map_cons, List.map_nil]
    · exact List.nodup_append'.2 ⟨h.jobs_nodup, List.nodup_singleton _,
        List.disjoint_singleton.2 h.nextJobId_notMem⟩
    · intro id hid
      rcases List.mem_append.1 hid with hold | hnew
      · obtain ⟨k, hk, heq⟩ := h.jobs_issued id hold
        exact ⟨k, by omega, heq⟩
      · exact ⟨s.jobSerial, by omega, List.mem_singleton.1 hnew⟩
    · intro jobId hmem
      exact List.mem_append_left _ (h.runs_owned jobId hmem)

theorem deleteJob (h : s.Identified) (id : String) : (s.deleteJob id).Identified := by
  have hjobs : ((s.deleteJob id).jobs.map (·.id)).Sublist (s.jobs.map (·.id)) :=
    List.filter_sublist.map _
  have hruns : (s.deleteJob id).runs.Sublist s.runs := by
    simp only [Store.deleteJob]
    split
    · exact List.filter_sublist
    · exact List.Sublist.refl _
  refine ⟨hjobs.nodup h.jobs_nodup, fun i hi => h.jobs_issued i (hjobs.subset hi),
    (hruns.map _).nodup h.runs_nodup, fun i hi => h.runs_issued i ((hruns.map _).subset hi), ?_⟩
  intro jobId hmem
  have howned := h.runs_owned jobId ((hruns.map _).subset hmem)
  -- a run of the deleted job is only left when there was no such job, and then it had no owner
  have hne : jobId ≠ id := by
    rintro rfl
    have hany : s.jobs.any (·.id == jobId) = true := by
      simpa [List.any_eq_true] using howned
    obtain ⟨r, hr, heq⟩ := List.mem_map.1 hmem
    simp only [Store.deleteJob, hany, if_true, List.mem_filter] at hr
    exact absurd heq (by simpa using hr.2)
  obtain ⟨r, hr, rfl⟩ := List.mem_map.1 howned
  exact List.mem_map.2 ⟨r, List.mem_filter.2 ⟨hr, by simpa using hne⟩, rfl⟩

theorem addFire (h : s.Identified) {run : Run} (hid : run.id = runIdOfSerial s.runSerial)
    (howner : run.jobId ∈ s.jobs.map (·.id)) : (s.addFire run).Identified := by
  refine ⟨h.jobs_nodup, h.jobs_issued, ?_, ?_, ?_⟩ <;>
    simp only [Store.addFire, addRun, List.map_append, List.map_cons, List.map_nil,
      RunRow.ofRun]
  · refine List.nodup_append'.2 ⟨h.runs_nodup, List.nodup_singleton _, ?_⟩
    rw [hid]
    exact List.disjoint_singleton.2 h.nextRunId_notMem
  · intro id hmem
    rcases List.mem_append.1 hmem with hold | hnew
    · obtain ⟨k, hk, heq⟩ := h.runs_issued id hold
      exact ⟨k, by omega, heq⟩
    · exact ⟨s.runSerial, by omega, (List.mem_singleton.1 hnew).trans hid⟩
  · intro jobId hmem
    rcases List.mem_append.1 hmem with hold | hnew
    · exact h.runs_owned jobId hold
    · rw [List.mem_singleton.1 hnew]
      exact howner

theorem enqueue (h : s.Identified) (id : String) (now : Int) :
    (s.enqueue id now).2.Identified := by
  obtain ⟨hsame, -⟩ | ⟨e, hdisabled⟩ | ⟨r, fire, enabled, next, busy, hr, rfl, -, -, -, hfired⟩ :=
    s.enqueue_cases id now
  · rw [hsame]
    exact h
  · rw [hdisabled]
    exact h.updateJob id fun _ => rfl
  · rw [hfired]
    refine (h.addFire (Job.firedRun_id ..) ?_).updateJob _ fun _ => rfl
    rw [Job.firedRun_jobId]
    exact List.mem_map_of_mem hr

end Identified

end Store

/-! ### Every statement -/

/-- **Every statement keeps rows identified.** -/
theorem Statement.identified_run {α : Type} (st : Statement α) {s : Store} (h : s.Identified) :
    (st.run s).2.Identified := by
  cases st with
  | saveJob spec now => exact h.saveJob spec now
  | disableJob id now => exact h.updateJob id fun _ => rfl
  | deleteJob id => exact h.deleteJob id
  | setNextRun id next now => exact h.updateJob id fun _ => rfl
  | disableInvalid id now => exact h.updateJob id fun _ => rfl
  | enqueue jobId now => exact h.enqueue jobId now
  | claim runId now => exact h.updateRuns _ (fun _ => rfl) fun _ => rfl
  | finish runId status error summary now => exact h.updateRuns _ (fun _ => rfl) fun _ => rfl
  | failRunning message now => exact h.updateRuns _ (fun _ => rfl) fun _ => rfl
  | _ => exact h

end Timetable
