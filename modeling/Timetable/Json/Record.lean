/-
**Records as JSON.**

How jobs, runs and specifications are written as JSON objects, and how such objects are read.  A
name that is not listed is ignored; an optional value may be absent or null; everything else must be
there, of the right kind and within its range.

Main definitions:

* `Job.toJson`, `Run.toJson`, `JobSpec.toJson` — writing;
* `Job.ofJson?`, `Run.ofJson?`, `JobSpec.ofJson?` — **reading**.
-/

import Timetable.Job.Spec
import Timetable.Json.Basic
import Timetable.Run

set_option autoImplicit false
set_option relaxedAutoImplicit false

namespace Timetable

/-! ### Fields -/

namespace Json

/-- A value read as a text. -/
def asString? : Json → Option String
  | str s => some s
  | _ => none

/-- A value read as a truth value. -/
def asBool? : Json → Option Bool
  | bool b => some b
  | _ => none

/-- A value read as a 64-bit signed number. -/
def asInt64? : Json → Option Int
  | int n => if Text.int64Min ≤ n ∧ n ≤ Text.int64Max then some n else none
  | _ => none

/-- A value read as an unsigned number up to a bound. -/
def asNat? (max : Nat) : Json → Option Nat
  | int n => if 0 ≤ n ∧ n ≤ max then some n.toNat else none
  | _ => none

/-- A field that must be there. -/
def required? {α : Type} (read : Json → Option α) (name : String) (v : Json) : Option α :=
  (v.field? name).bind read

/-- A field that may be absent or null. -/
def optional? {α : Type} (read : Json → Option α) (name : String) (v : Json) : Option (Option α) :=
  match v.field? name with
  | none | some null => some none
  | some w => (read w).map some

/-- A field that may be absent, but not null. -/
def withDefault? {α : Type} (read : Json → Option α) (default : α) (name : String) (v : Json) :
    Option α :=
  match v.field? name with
  | none => some default
  | some w => read w

/-- The value is an object. -/
def isObject : Json → Bool
  | obj _ => true
  | _ => false

/-- An object with the fields of another one put over its own. -/
def override (base changes : Json) : Json :=
  match base, changes with
  | obj xs, obj ys => obj (xs ++ ys)
  | _, v => v

end Json

open Json

/-! ### Jobs -/

namespace Job

/-- A job as JSON. -/
def toJson (j : Job) : Json :=
  .obj [
    ("id", .str j.id),
    ("name", .str j.name),
    ("enabled", .bool j.enabled),
    ("cron_expression", .str? j.cronExpression),
    ("interval_seconds", .int? j.intervalSeconds),
    ("task", .str j.task),
    ("run_once", .bool j.runOnce),
    ("overlap_policy", .str j.overlapPolicy),
    ("timeout_seconds", .int? j.timeoutSeconds),
    ("model", .str? j.model),
    ("notify_target", .str? j.notifyTarget),
    ("last_run_at", .int? j.lastRunAt),
    ("next_run_at", .int? j.nextRunAt),
    ("created_at", .int j.createdAt),
    ("updated_at", .int j.updatedAt)]

/-- **Reading a job.** -/
def ofJson? (v : Json) : Option Job := do
  return {
    id := ← required? asString? "id" v
    name := ← required? asString? "name" v
    enabled := ← required? asBool? "enabled" v
    cronExpression := ← optional? asString? "cron_expression" v
    intervalSeconds := ← optional? asInt64? "interval_seconds" v
    task := ← required? asString? "task" v
    runOnce := ← required? asBool? "run_once" v
    overlapPolicy := ← required? asString? "overlap_policy" v
    timeoutSeconds := ← optional? asInt64? "timeout_seconds" v
    model := ← optional? asString? "model" v
    notifyTarget := ← optional? asString? "notify_target" v
    lastRunAt := ← optional? asInt64? "last_run_at" v
    nextRunAt := ← optional? asInt64? "next_run_at" v
    createdAt := ← required? asInt64? "created_at" v
    updatedAt := ← required? asInt64? "updated_at" v }

end Job

/-! ### Specifications -/

namespace JobSpec

/-- A specification as JSON. -/
def toJson (s : JobSpec) : Json :=
  .obj [
    ("name", .str s.name),
    ("task", .str s.task),
    ("enabled", .bool s.enabled),
    ("cron_expression", .str? s.cronExpression),
    ("interval_seconds", .int? s.intervalSeconds),
    ("run_once", .bool s.runOnce),
    ("overlap_policy", .str? s.overlapPolicy),
    ("timeout_seconds", .int? s.timeoutSeconds),
    ("model", .str? s.model),
    ("notify_target", .str? s.notifyTarget)]

/-- **Reading a specification.** -/
def ofJson? (v : Json) : Option JobSpec := do
  return {
    name := ← required? asString? "name" v
    task := ← required? asString? "task" v
    enabled := ← required? asBool? "enabled" v
    cronExpression := ← optional? asString? "cron_expression" v
    intervalSeconds := ← optional? asInt64? "interval_seconds" v
    runOnce := ← required? asBool? "run_once" v
    overlapPolicy := ← optional? asString? "overlap_policy" v
    timeoutSeconds := ← optional? asInt64? "timeout_seconds" v
    model := ← optional? asString? "model" v
    notifyTarget := ← optional? asString? "notify_target" v }

end JobSpec

/-! ### Runs -/

namespace Run

/-- A run as JSON. -/
def toJson (r : Run) : Json :=
  .obj [
    ("id", .str r.id),
    ("job_id", .str r.jobId),
    ("job_updated_at", .int r.jobUpdatedAt),
    ("status", .str r.status.name),
    ("scheduled_for", .int r.scheduledFor),
    ("started_at", .int? r.startedAt),
    ("finished_at", .int? r.finishedAt),
    ("attempt", .nat r.attempt),
    ("error", .str? r.error),
    ("result_summary", .str? r.resultSummary),
    ("created_at", .int r.createdAt)]

/-- **Reading a run.** -/
def ofJson? (v : Json) : Option Run := do
  return {
    id := ← required? asString? "id" v
    jobId := ← required? asString? "job_id" v
    jobUpdatedAt := ← required? asInt64? "job_updated_at" v
    status := ← RunStatus.parse? (← required? asString? "status" v)
    scheduledFor := ← required? asInt64? "scheduled_for" v
    startedAt := ← optional? asInt64? "started_at" v
    finishedAt := ← optional? asInt64? "finished_at" v
    attempt := ← required? (asNat? Text.uint32Max) "attempt" v
    error := ← optional? asString? "error" v
    resultSummary := ← optional? asString? "result_summary" v
    createdAt := ← required? asInt64? "created_at" v }

end Run

end Timetable
