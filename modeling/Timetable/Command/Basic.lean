/-
**Commands.**

What the program can be asked to do: to run the scheduler, or to manage jobs.  A management command
is a program over the store whose answer is a JSON value.

Main definitions:

* `JobCommand` — the management commands, `Command` — all commands;
* `JobCommand.program` — **what a management command does**;
* `CommandError` — why it fails, `CommandError.causes` — its wording.
-/

import Timetable.Json.Record
import Timetable.Management

set_option autoImplicit false
set_option relaxedAutoImplicit false

namespace Timetable

/-! ### Commands -/

/-- What a job is asked to be. -/
structure AddRequest where
  /-- The name of the job. -/
  name : String
  /-- The task. -/
  task : String
  /-- The fires, as a cron expression. -/
  cron : Option String
  /-- The fires, as a distance in seconds. -/
  every : Option Int
  /-- The job is to fire only once. -/
  runOnce : Bool
  /-- The model that runs use. -/
  model : Option String
  /-- The deadline of a run, in seconds. -/
  timeout : Option Int
  /-- Who is told about finished runs. -/
  notify : Option String
  /-- The job is stored without being scheduled. -/
  disabled : Bool
  deriving Repr, DecidableEq

/-- Which jobs are to be listed. -/
structure ListRequest where
  /-- Only enabled jobs. -/
  enabled : Bool
  /-- Only disabled jobs. -/
  disabled : Bool
  /-- Words that are looked for. -/
  query : Option String
  /-- The order of the list. -/
  order : JobOrder
  /-- The length of the list. -/
  limit : Nat
  deriving Repr, DecidableEq

/-- **The management commands.** -/
inductive JobCommand where
  /-- A job is created, or the definition of the job with that name is replaced. -/
  | add (request : AddRequest)
  /-- Jobs are listed. -/
  | list (request : ListRequest)
  /-- A job no longer fires. -/
  | disable (target : String)
  /-- A job goes, with its runs. -/
  | delete (target : String)
  /-- The runs of a job are listed. -/
  | runs (target : String) (limit : Nat)
  deriving Repr, DecidableEq

/-- **The commands.** -/
inductive Command where
  /-- The scheduler runs until it is interrupted. -/
  | serve
  /-- Jobs are managed. -/
  | manage (command : JobCommand)
  deriving Repr, DecidableEq

/-! ### Errors -/

/-- Why a management command fails. -/
inductive CommandError where
  /-- A job could not be saved. -/
  | saving (fault : Fault)
  /-- Anything else. -/
  | other (fault : Fault)
  deriving Repr, DecidableEq

/-- The wording of a failure, followed by what lies behind it. -/
def CommandError.causes : CommandError → List String
  | saving fault => "failed to save job" :: fault.causes
  | other fault => fault.causes

/-! ### Requests as specifications and queries -/

/-- The specification that a request stands for. -/
def AddRequest.spec (r : AddRequest) : JobSpec :=
  { name := r.name
    task := r.task
    enabled := !r.disabled
    cronExpression := r.cron
    intervalSeconds := r.every
    runOnce := r.runOnce
    timeoutSeconds := r.timeout
    model := r.model
    notifyTarget := r.notify }

/-- The query that a request stands for. -/
def ListRequest.query? (r : ListRequest) : JobQuery :=
  { enabled := if r.enabled then some true else if r.disabled then some false else none
    text := r.query
    order := r.order
    limit := r.limit }

/-! ### Programs -/

namespace JobCommand

open Program Management

/-- A program whose faults are reported as they are. -/
def plainly {α : Type} (p : Failing Fault α) : Failing CommandError α :=
  p.bind fun r => done (r.mapError .other)

/-- A job is created or its definition replaced; the answer is the job. -/
def addProgram (request : AddRequest) (now : Int) : Failing CommandError Json :=
  (saveJob request.spec now).bind fun r => done ((r.mapError .saving).map Job.toJson)

/-- Jobs are listed, with their number. -/
def listProgram (request : ListRequest) : Failing CommandError Json :=
  plainly ((Management.listJobs request.query?).andThen fun jobs =>
    done (.ok (.obj [("count", .nat jobs.length), ("jobs", .arr (jobs.map Job.toJson))])))

/-- A job no longer fires; the answer is the job. -/
def disableProgram (target : String) (now : Int) : Failing CommandError Json :=
  plainly ((findJob target).andThen fun job =>
    (disableJob job.id now).andThen fun _ =>
      (findJob job.id).andThen fun job => done (.ok job.toJson))

/-- A job goes; the answer names it. -/
def deleteProgram (target : String) : Failing CommandError Json :=
  plainly ((findJob target).andThen fun job =>
    (deleteJob job.id).andThen fun _ =>
      done (.ok (.obj [("deleted", .str job.id), ("name", .str job.name)])))

/-- The runs of a job are listed. -/
def runsProgram (target : String) (limit : Nat) : Failing CommandError Json :=
  plainly ((findJob target).andThen fun job =>
    (Management.listRuns job.id limit).andThen fun runs =>
      done (.ok (.obj [("job_id", .str job.id), ("name", .str job.name),
        ("runs", .arr (runs.map Run.toJson))])))

/-- **What a management command does** at a time. -/
def program (now : Int) : JobCommand → Failing CommandError Json
  | add request => addProgram request now
  | list request => listProgram request
  | disable target => disableProgram target now
  | delete target => deleteProgram target
  | runs target limit => runsProgram target limit

end JobCommand

end Timetable
