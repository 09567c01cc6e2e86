/-
**Commands keep a catalogue.**

The management commands do with the catalogue that the tables stand for what they are to do.  A
command about a job looks it up first, by its identifier and perhaps by its name, then changes it,
and perhaps looks it up again.  So the proof computes what each program comes to on its own, and
reads the catalogue off the tables before and after it.

Main definitions:

* `Store.Obeys` — a command is obeyed, `Store.manage` — commands one after the other.

Main results:

* `JobCommand.only_savesNormal` — what commands save was checked;
* `Store.Regular.obeys` — **every command is obeyed**;
* `Store.commands_follow` — **so are any commands one after the other**.
-/

import Timetable.Proofs.Catalogue.Tables
import Timetable.Proofs.Saving

set_option autoImplicit false
set_option relaxedAutoImplicit false

namespace Timetable

open Program Management

/-! ### What commands save -/

/-- **Commands save definitions in normal form.** -/
theorem JobCommand.only_savesNormal (command : JobCommand) (now : Int) :
    (command.program now).Only fun _ st => st.SavesNormal := by
  -- whatever follows looking a job up, it saves nothing
  have hplainly {f : Job → Failing Fault Json} (hf : ∀ j, (f j).Only fun _ st => st.SavesNormal)
      (target : String) :
      (plainly ((findJob target).andThen f)).Only fun _ st => st.SavesNormal :=
    Only.bind (Only.andThen (only_findJob (fun _ => trivial) (fun _ => trivial) target) hf)
      fun _ => trivial
  cases command with
  | add request =>
    have hsave : (saveJob request.spec now).Only fun _ st => st.SavesNormal :=
      only_saveJob (fun v hv => (JobSpec.validated_of_validate hv).normal) fun _ => trivial
    exact Only.bind hsave fun _ => trivial
  | list request =>
    exact Only.bind (Only.andThen (Only.require trivial) fun _ => trivial) fun _ => trivial
  | disable target =>
    refine hplainly (fun j => ?_) target
    have hdisable : (Management.disableJob j.id now).Only fun _ st => st.SavesNormal :=
      only_onJob trivial
    exact Only.andThen hdisable fun _ =>
      Only.andThen (only_findJob (fun _ => trivial) (fun _ => trivial) j.id) fun _ => trivial
  | delete target =>
    refine hplainly (fun j => ?_) target
    have hdelete : (Management.deleteJob j.id).Only fun _ st => st.SavesNormal := only_onJob trivial
    exact Only.andThen hdelete fun _ => trivial
  | runs target limit =>
    refine hplainly (fun j => ?_) target
    have hlist : (Management.listRuns j.id limit).Only fun _ st => st.SavesNormal :=
      Only.require trivial
    exact Only.andThen hlist fun _ => trivial

namespace Store

variable {s : Store} {target : String} {j : Job} {now : Int}

/-! ### What commands come to -/

theorem runStore_findJob_of_some (h : s.resolve? target = some j) :
    (findJob target).runStore s = (.ok j, s) := by
  unfold resolve? at h
  cases hid : s.jobWithId? target with
  | some k =>
    simp only [hid, Option.some_or, Option.some.injEq] at h
    subst h
    simp [findJob, statement, require, Program.andThen, Program.bind, Program.runStore, Program.run,
      Statement.run, hid, Except.mapError]
  | none =>
    simp only [hid, Option.none_or] at h
    simp [findJob, statement, require, Program.andThen, Program.bind, Program.runStore, Program.run,
      Statement.run, hid, h, Except.mapError]

theorem runStore_findJob_of_none (h : s.resolve? target = none) :
    (findJob target).runStore s = (.error (.jobNotFound target), s) := by
  simp only [resolve?, Option.or_eq_none_iff] at h
  simp [findJob, statement, require, Program.andThen, Program.bind, Program.runStore, Program.run,
    Statement.run, h, Except.mapError]

/-- A statement about a job that is there is performed. -/
theorem runStore_onJob {st : Statement Bool} {s' : Store} (h : st.run s = (.ok true, s'))
    (id : String) : (onJob id st).runStore s = (.ok (), s') := by
  simp [onJob, statement, require, Program.andThen, Program.bind, Program.runStore, Program.run, h,
    Except.mapError]

theorem runStore_add_of_error {request : AddRequest} {e : SpecError}
    (h : request.spec.validate = .error e) :
    (JobCommand.addProgram request now).runStore s = (.error (.saving (.spec e)), s) := by
  rw [JobCommand.addProgram, runStore_bind, runStore_saveJob_of_error h]
  rfl

/-- A valid definition is saved, and the answer is the job under its name. -/
theorem runStore_add_of_ok {request : AddRequest} {v : JobSpec} (h : request.spec.validate = .ok v)
    (hj : (s.saveJob v now).jobNamed? v.name = some j) :
    (JobCommand.addProgram request now).runStore s = (.ok j.toJson, s.saveJob v now) := by
  rw [JobCommand.addProgram, runStore_bind, runStore_saveJob_of_ok h hj]
  rfl

/-- A command is obeyed: it answers and does what it is to answer and to do with the catalogue. -/
def Obeys (s : Store) (now : Int) (command : JobCommand) : Prop :=
  s.catalogue.Obeys now command ((command.program now).runStore s).1
    ((command.program now).runStore s).2.catalogue

namespace Regular

/-- **A command about a job** is obeyed if what follows looking the job up does for it what the
command is to do. -/
theorem obeys_of_resolves (h : s.Regular) {command : JobCommand} {f : Job → Failing Fault Json}
    (habout : command.target? = some target)
    (hprogram : command.program now = JobCommand.plainly ((findJob target).andThen f))
    (hjob : ∀ r ∈ s.jobs, s.catalogue.Resolves target r.decode →
      s.catalogue.Obeys now command (((f r.decode).runStore s).1.mapError .other)
        ((f r.decode).runStore s).2.catalogue) : s.Obeys now command := by
  rw [Store.Obeys, hprogram, JobCommand.plainly, runStore_bind]
  cases hfound : s.resolve? target with
  | none =>
    rw [runStore_andThen_error (runStore_findJob_of_none hfound)]
    exact .unknown habout (h.resolve?_eq_none_iff.1 hfound)
  | some j =>
    have hresolves := h.resolve?_eq_some_iff.1 hfound
    obtain ⟨r, hr, rfl⟩ := h.exists_row hresolves
    rw [runStore_andThen_ok (runStore_findJob_of_some hfound)]
    exact hjob r hr hresolves

theorem obeys_disable (h : s.Regular) (target : String) (now : Int) :
    s.Obeys now (.disable target) := by
  refine h.obeys_of_resolves rfl rfl fun r hr hresolves => ?_
  have hrun : Statement.run (.disableJob r.id now) s = (.ok true, s.disableJob r.id now) := by
    simp [Statement.run, jobRow?_of_mem h.jobs_nodup hr]
  have hdisabled : (s.disableJob r.id now).Regular :=
    @Regular.run _ h _ (.disableJob r.id now) trivial
  have hcatalogue : (s.disableJob r.id now).catalogue = s.catalogue.put (r.decode.retired now) :=
    h.catalogue_updateJob hr rfl
  have hagain : (s.disableJob r.id now).resolve? r.id = some (r.decode.retired now) :=
    hdisabled.resolve?_eq_some_iff.2 (Or.inl ⟨jobNamed?_of_catalogue_eq_put hcatalogue, rfl⟩)
  rw [Management.disableJob, show r.decode.id = r.id from rfl,
    runStore_andThen_ok (runStore_onJob hrun _),
    runStore_andThen_ok (runStore_findJob_of_some hagain)]
  have hobeys : s.catalogue.Obeys now (.disable target) _ _ := .disable hresolves
  rw [← hcatalogue] at hobeys
  exact hobeys

theorem obeys_delete (h : s.Regular) (target : String) (now : Int) :
    s.Obeys now (.delete target) := by
  refine h.obeys_of_resolves rfl rfl fun r hr hresolves => ?_
  have hrun : Statement.run (.deleteJob r.id) s = (.ok true, s.deleteJob r.id) := by
    simp [Statement.run, jobRow?_of_mem h.jobs_nodup hr]
  rw [Management.deleteJob, show r.decode.id = r.id from rfl,
    runStore_andThen_ok (runStore_onJob hrun _)]
  have hobeys : s.catalogue.Obeys now (.delete target) _ _ := .delete hresolves
  rw [← h.catalogue_deleteJob hr] at hobeys
  exact hobeys

theorem obeys_runs (h : s.Regular) (target : String) (limit : Nat) (now : Int) :
    s.Obeys now (.runs target limit) := by
  refine h.obeys_of_resolves rfl rfl fun r _ hresolves => ?_
  obtain ⟨runs, hruns, hlisted, hcomplete⟩ := h.exists_listRuns r.id limit
  have hrun : Statement.run (.listRuns r.id limit) s = (.ok runs, s) := by
    rw [Statement.run, hruns]
    rfl
  rw [Management.listRuns, show r.decode.id = r.id from rfl,
    runStore_andThen_ok (runStore_statement hrun)]
  exact .runs hresolves hlisted hcomplete

theorem obeys_list (h : s.Regular) (request : ListRequest) (now : Int) :
    s.Obeys now (.list request) :=
  have ⟨hsound, honce, hcomplete⟩ := h.listJobs_selected request
  .list hsound honce hcomplete

theorem obeys_add (h : s.Regular) (request : AddRequest) (now : Int) :
    s.Obeys now (.add request) := by
  rw [Store.Obeys, JobCommand.program]
  cases hvalid : request.spec.validate with
  | error e =>
    rw [runStore_add_of_error hvalid]
    exact .refuse hvalid
  | ok v =>
    have htrimmed : v.name = Text.trim request.name :=
      (Text.nonBlank?_eq_some (JobSpec.validated_of_validate hvalid).name).1
    cases hnamed : s.jobNamed? v.name with
    | none =>
      have hcatalogue : (s.saveJob v now).catalogue =
          s.catalogue.put (Job.new (jobIdOfSerial s.jobSerial) v now) :=
            catalogue_saveJob_of_absent hnamed
      have hobeys : s.catalogue.Obeys now (.add request) _ _ :=
        .create hvalid htrimmed hnamed h.nextJobId_unheld h.runs_nextJobId
      rw [← hcatalogue] at hobeys
      rwa [runStore_add_of_ok hvalid (jobNamed?_of_catalogue_eq_put hcatalogue)]
    | some j =>
      have hpresent : s.catalogue.entry v.name = some j := hnamed
      obtain ⟨r, hr, hname, rfl⟩ := h.entry_eq_some_iff.1 hpresent
      have hcatalogue :
          (s.saveJob v now).catalogue = s.catalogue.put (r.decode.redefined v now) := by
        rw [h.saveJob_of_mem hr hname, ← decode_redefine hname]
        exact h.catalogue_updateJob hr rfl
      have hobeys : s.catalogue.Obeys now (.add request) _ _ := .replace hvalid htrimmed hpresent
      rw [← hcatalogue] at hobeys
      rwa [runStore_add_of_ok hvalid (jobNamed?_of_catalogue_eq_put hcatalogue)]

/-- **Every command is obeyed.** -/
theorem obeys (h : s.Regular) (command : JobCommand) (now : Int) : s.Obeys now command := by
  cases command with
  | add request => exact h.obeys_add request now
  | list request => exact h.obeys_list request now
  | disable target => exact h.obeys_disable target now
  | delete target => exact h.obeys_delete target now
  | runs target limit => exact h.obeys_runs target limit now

end Regular

/-! ### One command after the other -/

/-- **Commands one after the other**, each at its time. -/
def manage (s : Store) : List (Int × JobCommand) → List (Except CommandError Json) × Store
  | [] => ([], s)
  | (now, command) :: commands =>
    let (reply, s') := (command.program now).runStore s
    let (replies, s'') := s'.manage commands
    (reply :: replies, s'')

theorem Regular.manage (h : s.Regular) (commands : List (Int × JobCommand)) :
    (s.manage commands).2.Regular ∧
      s.catalogue.Follows commands (s.manage commands).1 (s.manage commands).2.catalogue := by
  induction commands generalizing s with
  | nil => exact ⟨h, .nil _⟩
  | cons c commands ih =>
    obtain ⟨hregular, hfollows⟩ := ih (h.runStore (c.2.only_savesNormal c.1))
    exact ⟨hregular, .cons (h.obeys c.2 c.1) hfollows⟩

end Store

end Timetable
