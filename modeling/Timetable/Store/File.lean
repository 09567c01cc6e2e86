/-
**Stores in files.**

A store is kept in a file as one JSON value: the two tables and the numbers of the next identifiers.
An empty file holds the store without rows; a file that holds anything else is no store.

Main definitions:

* `Store.toJson`, `Store.ofJson?` — a store as JSON;
* `Found` — what is found at a path;
* `Store.isKept` — whether there is a file at all;
* `Store.openFound` — **opening a store**, and `OpenFailure` — why that fails.

Main results:

* `Store.openFound_nothing` — where nothing is, a store without rows is opened.
-/

import Timetable.Json.Reader
import Timetable.Json.Record
import Timetable.Store.Basic

set_option autoImplicit false
set_option relaxedAutoImplicit false

namespace Timetable

open Json

/-! ### Rows -/

namespace JobRow

/-- The row of a job whose flags are stored as the given numbers. -/
def ofJob (j : Job) (enabled runOnce : Int) : JobRow :=
  { id := j.id
    name := j.name
    enabled
    cronExpression := j.cronExpression
    intervalSeconds := j.intervalSeconds
    task := j.task
    runOnce
    overlapPolicy := j.overlapPolicy
    timeoutSeconds := j.timeoutSeconds
    model := j.model
    notifyTarget := j.notifyTarget
    lastRunAt := j.lastRunAt
    nextRunAt := j.nextRunAt
    createdAt := j.createdAt
    updatedAt := j.updatedAt }

/-- A row as JSON: the job, but with its flags as numbers. -/
def toJson (r : JobRow) : Json :=
  (r.decode.toJson.override
    (.obj [("enabled", .int r.enabled), ("run_once", .int r.runOnce)])).sorted

/-- Reading a row. -/
def ofJson? (v : Json) : Option JobRow := do
  let enabled ← required? asInt64? "enabled" v
  let runOnce ← required? asInt64? "run_once" v
  let flags := Json.obj
    [("enabled", .bool (flagSet enabled)), ("run_once", .bool (flagSet runOnce))]
  return ofJob (← Job.ofJson? (v.override flags)) enabled runOnce

end JobRow

namespace RunRow

/-- A row as JSON. -/
def toJson (r : RunRow) : Json :=
  .obj [
    ("id", .str r.id),
    ("job_id", .str r.jobId),
    ("job_updated_at", .int r.jobUpdatedAt),
    ("status", .str r.status),
    ("scheduled_for", .int r.scheduledFor),
    ("started_at", .int? r.startedAt),
    ("finished_at", .int? r.finishedAt),
    ("attempt", .int r.attempt),
    ("error", .str? r.error),
    ("result_summary", .str? r.resultSummary),
    ("created_at", .int r.createdAt)]

/-- Reading a row. -/
def ofJson? (v : Json) : Option RunRow := do
  return {
    id := ← required? asString? "id" v
    jobId := ← required? asString? "job_id" v
    jobUpdatedAt := ← required? asInt64? "job_updated_at" v
    status := ← required? asString? "status" v
    scheduledFor := ← required? asInt64? "scheduled_for" v
    startedAt := ← optional? asInt64? "started_at" v
    finishedAt := ← optional? asInt64? "finished_at" v
    attempt := ← required? asInt64? "attempt" v
    error := ← optional? asString? "error" v
    resultSummary := ← optional? asString? "result_summary" v
    createdAt := ← required? asInt64? "created_at" v }

end RunRow

/-! ### Stores -/

/-- What is found at a path. -/
inductive Found where
  /-- Nothing. -/
  | nothing
  /-- A folder, or a way that ends in a file before it ends. -/
  | obstacle
  /-- A file. -/
  | file (contents : String)
  deriving Repr, DecidableEq

/-- Why a store cannot be opened. -/
inductive OpenFailure where
  /-- There can be no file at that path. -/
  | unopenable (path : String)
  /-- The file holds something else. -/
  | otherContents
  deriving Repr, DecidableEq

/-- The wording of a failure, from the outside in. -/
def OpenFailure.causes : OpenFailure → List String
  | unopenable path =>
    let text := "unable to open database file: " ++ path
    ["Database error: " ++ text, text, "Error code 14: Unable to open the database file"]
  | otherContents =>
    ["Database error: file is not a database", "file is not a database",
      "Error code 26: File opened that is not a database file"]

namespace Store

/-- A store as JSON. -/
def toJson (s : Store) : Json :=
  .obj [
    ("jobs", .arr (s.jobs.map JobRow.toJson)),
    ("runs", .arr (s.runs.map RunRow.toJson)),
    ("next_job", .nat s.jobSerial),
    ("next_run", .nat s.runSerial)]

/-- A value read as a list of rows. -/
def rows? {α : Type} (read : Json → Option α) : Json → Option (List α)
  | .arr items => items.mapM read
  | _ => none

/-- Reading a store. -/
def ofJson? (v : Json) : Option Store := do
  return {
    jobs := ← required? (rows? JobRow.ofJson?) "jobs" v
    runs := ← required? (rows? RunRow.ofJson?) "runs" v
    jobSerial := ← required? (asNat? Text.uint64Max) "next_job" v
    runSerial := ← required? (asNat? Text.uint64Max) "next_run" v }

/-- The store at a path is kept when the program ends. -/
def isKept (path : String) : Bool :=
  path != "" && path != ":memory:"

/-- **Opening the store at a path**, given what is found there. -/
def openFound (path : String) : Found → Except OpenFailure Store
  | .nothing => .ok empty
  | .obstacle => .error (.unopenable path)
  | .file contents =>
    if contents = "" then .ok empty
    else
      match (Json.parse? contents).bind ofJson? with
      | some s => .ok s
      | none => .error .otherContents

/-- Where nothing is, a store without rows is opened. -/
@[simp] theorem openFound_nothing (path : String) : openFound path .nothing = .ok empty := rfl

end Store

end Timetable
