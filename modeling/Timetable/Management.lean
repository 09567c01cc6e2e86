/-
**Managing jobs.**

What people do with jobs — save, find, disable and delete them — as programs over the store.

Main definitions:

* `Fault` — why such a program fails, `Fault.message` — its wording;
* `Management.saveJob` — **creating a job or replacing its definition**;
* `Management.findJob` — finding a job by its identifier or its name;
* `Management.disableJob`, `Management.deleteJob`, `Management.listRuns`, `Management.listJobs`.
-/

import Timetable.Program

set_option autoImplicit false
set_option relaxedAutoImplicit false

namespace Timetable

/-! ### Faults -/

/-- Why managing a job fails. -/
inductive Fault where
  /-- The specification is refused. -/
  | spec (e : SpecError)
  /-- There is no job with that identifier or name. -/
  | jobNotFound (target : String)
  /-- An access to the store failed. -/
  | access (e : AccessError)
  deriving Repr, DecidableEq

namespace Fault

/-- The wording of a missing job. -/
def jobNotFoundMessage (target : String) : String :=
  "Job not found: " ++ target

/-- The wording of a fault, followed by what lies behind it. -/
def causes : Fault → List String
  | spec e => [e.message]
  | jobNotFound target => [jobNotFoundMessage target]
  | access e => e.message :: e.causes

/-- The wording of a fault. -/
def message (f : Fault) : String := f.causes.headD ""

end Fault

namespace Management

open Program

/-- A statement whose failure ends the program. -/
def statement {α : Type} (st : Statement α) : Failing Fault α :=
  require Fault.access st

/-- **Creating a job or replacing its definition.**  The answer is the job as it was stored. -/
def saveJob (spec : JobSpec) (now : Int) : Failing Fault Job :=
  match spec.validate with
  | .error e => done (.error (.spec e))
  | .ok spec =>
    (statement (.saveJob spec now)).andThen fun _ =>
      (statement (.jobNamed spec.name)).andThen fun
        | some job => done (.ok job)
        | none => done (.error (.access .noRow))

/-- **Finding a job**, by its identifier or else by its name. -/
def findJob (target : String) : Failing Fault Job :=
  (statement (.jobWithId target)).andThen fun
    | some job => done (.ok job)
    | none =>
      (statement (.jobNamed target)).andThen fun
        | some job => done (.ok job)
        | none => done (.error (.jobNotFound target))

/-- A statement about a job that must exist. -/
def onJob (id : String) (st : Statement Bool) : Failing Fault Unit :=
  (statement st).andThen fun found =>
    done (if found then .ok () else .error (.jobNotFound id))

/-- The job with an identifier no longer fires. -/
def disableJob (id : String) (now : Int) : Failing Fault Unit :=
  onJob id (.disableJob id now)

/-- The job with an identifier goes, with its runs. -/
def deleteJob (id : String) : Failing Fault Unit :=
  onJob id (.deleteJob id)

/-- The jobs that a query asks for. -/
def listJobs (query : JobQuery) : Failing Fault (List Job) :=
  statement (.listJobs query)

/-- The runs of the job with an identifier. -/
def listRuns (jobId : String) (limit : Nat) : Failing Fault (List Run) :=
  statement (.listRuns jobId limit)

end Management

end Timetable
