/-
**What the tables never lose.**

Whatever is done to the tables, in whatever order and with whatever clocks: rows are told apart by
their identifiers and jobs by their names, every run has its job, and every job has a definition in
normal form.  A job was changed last when it was created or later, and a run was created from a
version of its job that is not newer than the one on record.

Main definitions:

* `JobRow.definition` — the definition that a row holds;
* `JobRow.Intact`, `Store.Intact` — **an intact row, and an intact store**.

Main results:

* `JobRow.Change.intact` — changes keep rows intact;
* `Store.Intact.apply` — **every statement keeps a store intact** that saves definitions in normal
  form;
* `Store.intact_performAll` — so does every operation;
* `Session.integrity` — **every session keeps the tables intact**.
-/

import Timetable.Proofs.Specification
import Timetable.Proofs.Store.Jobs

set_option autoImplicit false
set_option relaxedAutoImplicit false

namespace Timetable

open Program

/-! ### Rows -/

theorem JobSpec.Checked.policy_getD {spec : JobSpec} (h : spec.Checked) :
    some (spec.overlapPolicy.getD OverlapPolicy.forbid.name) = spec.overlapPolicy := by
  rw [h.policy, Option.getD_some]

namespace JobRow

/-- The definition that a row holds. -/
def definition (r : JobRow) : JobSpec where
  name := r.name
  task := r.task
  enabled := r.decode.enabled
  cronExpression := r.cronExpression
  intervalSeconds := r.intervalSeconds
  runOnce := r.decode.runOnce
  overlapPolicy := some r.overlapPolicy
  timeoutSeconds := r.timeoutSeconds
  model := r.model
  notifyTarget := r.notifyTarget

/-- **An intact row**: its definition is in normal form, and it was changed last when it was created
or later. -/
structure Intact (r : JobRow) : Prop where
  /-- The definition is in normal form. -/
  normal : r.definition.Normal
  /-- No change is older than the job. -/
  createdAt_le : r.createdAt ≤ r.updatedAt

variable {r : JobRow} {spec : JobSpec}

/-- What is saved is what the row holds. -/
theorem definition_ofSpec (h : spec.Checked) (id : String) (now : Int) :
    (JobRow.ofSpec id spec now).definition = spec := by
  simp only [definition, ofSpec, decode, flagSet_flagNumber, h.policy_getD]

theorem definition_redefine (h : spec.Checked) (hname : spec.name = r.name) (now : Int) :
    (r.redefine spec now).definition = spec := by
  simp only [definition, redefine, decode, flagSet_flagNumber, h.policy_getD, ← hname]

theorem intact_ofSpec (h : spec.Normal) (id : String) (now : Int) :
    (JobRow.ofSpec id spec now).Intact where
  normal := by rwa [definition_ofSpec h.toChecked]
  createdAt_le := le_refl now

end JobRow

/-- Whether a job is enabled does not matter for its definition to be in normal form. -/
theorem JobSpec.Normal.setEnabled {spec : JobSpec} (h : spec.Normal) (enabled : Bool) :
    ({ spec with enabled } : JobSpec).Normal :=
  ⟨⟨h.schedule, h.policy⟩, h.name, h.name_ne, h.task, h.task_ne, h.timeout⟩

/-- A statement that saves a job saves a definition in normal form. -/
def Statement.SavesNormal {α : Type} : Statement α → Prop
  | saveJob spec _ => spec.Normal
  | _ => True

theorem Statement.SavedBy.savesNormal {α : Type} {st : Statement α} {o : Operation}
    (h : st.SavedBy o) : st.SavesNormal := by
  cases st with
  | saveJob v now =>
    obtain ⟨spec, -, hv⟩ := h
    exact (JobSpec.validated_of_validate hv).normal
  | _ => trivial

/-- Changes keep rows intact. -/
theorem JobRow.Change.intact {a : Access} {r r' : JobRow} (h : r.Change a r')
    (ha : a.2.SavesNormal) (hr : r.Intact) : r'.Intact where
  normal := by
    cases h with
    | @save _ spec now named =>
      have hnormal : spec.Normal := ha
      rwa [definition_redefine hnormal.toChecked named]
    | _ => exact hr.normal.setEnabled _
  createdAt_le := by
    rw [h.createdAt_eq]
    exact hr.createdAt_le.trans h.updatedAt_le

/-! ### Stores -/

namespace Store

/-- **An intact store.** -/
structure Intact (s : Store) : Prop extends s.Identified where
  /-- No two jobs have the same name. -/
  names_nodup : (s.jobs.map (·.name)).Nodup
  /-- The rows of jobs are intact. -/
  rows : ∀ r ∈ s.jobs, r.Intact
  /-- No run was created from a newer version of its job than the one on record. -/
  jobUpdatedAt_le : ∀ run ∈ s.runs, ∀ r ∈ s.jobs, r.id = run.jobId → run.jobUpdatedAt ≤ r.updatedAt

theorem intact_empty : empty.Intact where
  toIdentified := identified_empty
  names_nodup := List.nodup_nil
  rows _ h := nomatch h
  jobUpdatedAt_le _ h := nomatch h

namespace Intact

variable {s : Store} {a : Access}

/-- Names stay apart: a statement renames no job, and adds one under a name that is on no row. -/
theorem nodup_names_apply (h : s.Intact) (a : Access) : ((a.apply s).jobs.map (·.name)).Nodup := by
  have hids : ((a.apply s).jobs.map (·.id)).Nodup := (h.jobsNumbered.apply a).ids
  refine List.Nodup.map_on (fun r₁ hr₁ r₂ hr₂ hname => ?_) (List.Nodup.of_map _ hids)
  rcases Access.mem_jobs h.jobs_nodup hr₁ with ⟨x₁, hx₁, h₁⟩ | ⟨spec₁, now₁, ha₁, hnew₁, rfl⟩ <;>
    rcases Access.mem_jobs h.jobs_nodup hr₂ with ⟨x₂, hx₂, h₂⟩ | ⟨spec₂, now₂, ha₂, hnew₂, rfl⟩
  · have hsame : x₁.name = x₂.name := by rw [← h₁.name_eq, hname, h₂.name_eq]
    obtain rfl := List.inj_on_of_nodup_map h.names_nodup hx₁ hx₂ hsame
    exact List.inj_on_of_nodup_map hids hr₁ hr₂ (h₁.id_eq.trans h₂.id_eq.symm)
  · exact absurd (h₁.name_eq.symm.trans hname) (hnew₂ x₁ hx₁)
  · exact absurd (h₂.name_eq.symm.trans hname.symm) (hnew₁ x₂ hx₂)
  · cases ha₁.symm.trans ha₂
    rfl

/-- What is on record under the name of a job is that job, before a statement and after it. -/
theorem id_eq_of_name_eq (h : s.Intact) {r r' : JobRow} (hr : r ∈ s.jobs)
    (hr' : r' ∈ (a.apply s).jobs) (hname : r'.name = r.name) : r'.id = r.id := by
  rcases Access.mem_jobs h.jobs_nodup hr' with ⟨x, hx, hchange⟩ | ⟨spec, now, -, hnew, rfl⟩
  · have hsame : x.name = r.name := hchange.name_eq.symm.trans hname
    obtain rfl := List.inj_on_of_nodup_map h.names_nodup hx hr hsame
    exact hchange.id_eq
  · exact absurd hname.symm (hnew r hr)

/-- A run stays not newer than its job. -/
theorem jobUpdatedAt_le_apply (h : s.Intact) {run : RunRow} (hrun : run ∈ (a.apply s).runs)
    {r' : JobRow} (hr' : r' ∈ (a.apply s).jobs) (hid : r'.id = run.jobId) :
    run.jobUpdatedAt ≤ r'.updatedAt := by
  -- the job of the run was there before, so its row is a changed one
  have hbefore : ∃ r ∈ s.jobs, r.id = run.jobId ∧ run.jobUpdatedAt ≤ r.updatedAt := by
    rcases Access.mem_runs hrun with
        ⟨old, hold, horigin⟩ | ⟨r, hr, -, -, -, -, -, -, hjob, hversion, -⟩
    · have hjob : run.jobId = old.jobId := congrArg (·.jobId) horigin
      have hversion : run.jobUpdatedAt = old.jobUpdatedAt := congrArg (·.jobUpdatedAt) horigin
      obtain ⟨r, hr, hrid⟩ := List.mem_map.1 (h.runs_owned _ (List.mem_map_of_mem hold))
      exact ⟨r, hr, hrid.trans hjob.symm, hversion ▸ h.jobUpdatedAt_le old hold r hr hrid⟩
    · exact ⟨r, hr, hjob.symm, le_of_eq hversion⟩
  obtain ⟨r, hr, hrid, hle⟩ := hbefore
  exact hle.trans (h.jobsNumbered.change hr hr' (hid.trans hrid.symm)).updatedAt_le

/-- **Every statement keeps a store intact** that saves definitions in normal form. -/
theorem apply (h : s.Intact) (ha : a.2.SavesNormal) : (a.apply s).Intact where
  toIdentified := a.2.identified_run h.toIdentified
  names_nodup := h.nodup_names_apply a
  rows r' hr' := by
    rcases Access.mem_jobs h.jobs_nodup hr' with ⟨r, hr, hchange⟩ | ⟨spec, now, rfl, -, rfl⟩
    · exact hchange.intact ha (h.rows r hr)
    · exact JobRow.intact_ofSpec ha _ now
  jobUpdatedAt_le _ hrun _ hr' hid := h.jobUpdatedAt_le_apply hrun hr' hid

theorem through (h : s.Intact) {history : List Access}
    (hhistory : ∀ a ∈ history, a.2.SavesNormal) : (s.through history).Intact := by
  induction history generalizing s with
  | nil => exact h
  | cons a history ih =>
    exact ih (h.apply (hhistory a List.mem_cons_self)) fun b hb =>
      hhistory b (List.mem_cons_of_mem a hb)

/-- Every operation keeps a store intact. -/
theorem perform (h : s.Intact) (o : Operation) : (s.perform o).Intact :=
  o.only_savedBy.keeps (I := Intact)
    (fun γ st _ hst hx => hx.apply (a := ⟨γ, st⟩) hst.savesNormal) h

end Intact

/-- Operations one after the other leave the tables intact. -/
theorem intact_performAll (os : List Operation) : (empty.performAll os).Intact := by
  have hall (s : Store) (hs : s.Intact) : (s.performAll os).Intact := by
    induction os generalizing s with
    | nil => exact hs
    | cons o os ih => exact ih _ (hs.perform o)
  exact hall empty intact_empty

end Store

/-! ### Sessions -/

namespace Session

variable {ι : Type} [DecidableEq ι]

/-- **Every session keeps the tables intact.**  Whatever parties do on the empty tables, their
statements interleaved in any way and their clocks showing whatever they do: at every moment rows
are told apart by their identifiers and jobs by their names, every run has its job and was created
from a version of it that is not newer than the one on record, and every job has a definition in
normal form and was changed last when it was created or later.  A statement leaves what is on record
under a name with its identifier, and from one moment to any later one a job keeps its name and the
time of its creation, and the time of its last change does not go back. -/
theorem integrity (turns : List (Turn ι)) :
    ((opening .empty).play turns).store =
        Store.empty.through ((opening .empty).play turns).history ∧
      (∀ k, (Store.empty.stage ((opening .empty).play turns).history k).Intact) ∧
      (∀ k < ((opening .empty).play turns).history.length,
        ∀ r ∈ (Store.empty.stage ((opening .empty).play turns).history k).jobs,
        ∀ r' ∈ (Store.empty.stage ((opening .empty).play turns).history (k + 1)).jobs,
          r'.name = r.name → r'.id = r.id) ∧
      ∀ j k, j ≤ k → ∀ r ∈ (Store.empty.stage ((opening .empty).play turns).history j).jobs,
        ∀ r' ∈ (Store.empty.stage ((opening .empty).play turns).history k).jobs, r'.id = r.id →
        r'.name = r.name ∧ r'.createdAt = r.createdAt ∧ r.updatedAt ≤ r'.updatedAt := by
  have hbound := bound_savedBy .empty turns
  generalize (opening .empty).play turns = d at hbound
  have hnormal : ∀ a ∈ d.history, a.2.SavesNormal := fun a ha => by
    obtain ⟨i, o, -, hst⟩ := hbound.performed a ha
    exact hst.savesNormal
  have hintact (k : Nat) : (Store.empty.stage d.history k).Intact :=
    Store.intact_empty.through fun a ha => hnormal a (List.mem_of_mem_take ha)
  refine ⟨hbound.store_eq, hintact, fun k hk r hr r' hr' hname => ?_, fun j k hjk r hr => ?_⟩
  · rw [Store.stage_succ (List.getElem?_eq_getElem hk)] at hr'
    exact (hintact k).id_eq_of_name_eq hr hr' hname
  · rw [Store.stage_eq_through hjk]
    refine (hintact j).jobsNumbered.follow hr ⟨rfl, rfl, le_refl _⟩ fun a _ y y' _ hy hchange => ?_
    exact ⟨hchange.name_eq.trans hy.1, hchange.createdAt_eq.trans hy.2.1,
      hy.2.2.trans hchange.updatedAt_le⟩

/-- A job is saved; then the clock is set back, the next fire of the job is set by hand, it fires,
and its definition is replaced. -/
def clockSetBack : List (Turn Unit) :=
  [.take () (.saveJob (.interval " report " "true" 3600) 100), .act (), .act (),
    .take () (.setNextRun "job:0" (some 20) 40), .act (), .take () (.enqueue "job:0" 30), .act (),
    .take () (.saveJob (.cron "report" "true" "0 * * * *") 10), .act (), .act ()]

/-- Neither the job nor its run goes back with the clock. -/
theorem integrity_under_clock_set_back :
    (((opening .empty).play clockSetBack).store.jobs.map fun r =>
        (r.name, r.cronExpression, r.intervalSeconds, r.createdAt, r.updatedAt)) =
      [("report", some "0 * * * *", none, 100, 100)] ∧
    (((opening .empty).play clockSetBack).store.runs.map fun run => (run.jobId, run.jobUpdatedAt)) =
      [("job:0", 100)] ∧
    ((opening .empty).play clockSetBack).store.Intact := by
  obtain ⟨hstore, hintact, -⟩ := integrity clockSetBack
  refine ⟨by decide +kernel, by decide +kernel, ?_⟩
  rw [hstore, ← Store.stage_length]
  exact hintact _

end Session

end Timetable
