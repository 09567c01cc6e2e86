/-
**Settings.**

The settings of the program, each with a usual value.  A setting of the scheduler that makes no
sense — no workers, no period, no room for a text, no model — is replaced by its usual value before
the scheduler uses it.

Main definitions:

* `SchedulerSettings` — the settings of the scheduler, `SchedulerSettings.normalized` — **as the
  scheduler uses them**;
* `Settings` — all settings, `Settings.usual` — the usual ones.

Main results:

* `SchedulerSettings.concurrency_pos` and its like — normalised settings make sense.
-/

import Timetable.Json.Record

set_option autoImplicit false
set_option relaxedAutoImplicit false

namespace Timetable

/-! ### The scheduler -/

/-- **The settings of the scheduler.** -/
structure SchedulerSettings where
  /-- Whether anything is started at all. -/
  enabled : Bool := true
  /-- The number of workers. -/
  concurrency : Nat := 1
  /-- The period of the passes, and how long a worker without work waits, in milliseconds. -/
  tickMs : Nat := 1000
  /-- The greatest number of characters of a stored error. -/
  maxErrorChars : Nat := 2000
  /-- The greatest number of characters of a stored summary. -/
  maxSummaryChars : Nat := 1000
  /-- The model of runs whose job names none. -/
  defaultModel : String := "default"
  deriving Repr, DecidableEq

namespace SchedulerSettings

/-- A number, or its usual value in place of zero. -/
def orUsual (usual n : Nat) : Nat :=
  if n = 0 then usual else n

/-- **The settings as the scheduler uses them**: zeros and a blank model are replaced by the usual
values, and the model is trimmed. -/
def normalized (s : SchedulerSettings) : SchedulerSettings :=
  { s with
    concurrency := orUsual 1 s.concurrency
    tickMs := orUsual 1000 s.tickMs
    maxErrorChars := orUsual 2000 s.maxErrorChars
    maxSummaryChars := orUsual 1000 s.maxSummaryChars
    defaultModel := (Text.nonBlank? s.defaultModel).getD "default" }

theorem orUsual_pos {usual : Nat} (n : Nat) (h : 0 < usual) : 0 < orUsual usual n := by
  unfold orUsual; split <;> omega

/-- A normalised scheduler has a worker. -/
theorem concurrency_pos (s : SchedulerSettings) : 0 < s.normalized.concurrency :=
  orUsual_pos _ (by decide)

/-- A normalised scheduler has a period. -/
theorem tickMs_pos (s : SchedulerSettings) : 0 < s.normalized.tickMs :=
  orUsual_pos _ (by decide)

/-- A normalised scheduler leaves room for errors. -/
theorem maxErrorChars_pos (s : SchedulerSettings) : 0 < s.normalized.maxErrorChars :=
  orUsual_pos _ (by decide)

/-- A normalised scheduler leaves room for summaries. -/
theorem maxSummaryChars_pos (s : SchedulerSettings) : 0 < s.normalized.maxSummaryChars :=
  orUsual_pos _ (by decide)

/-- The settings as JSON. -/
def toJson (s : SchedulerSettings) : Json :=
  .obj [
    ("enabled", .bool s.enabled),
    ("concurrency", .nat s.concurrency),
    ("tick_ms", .nat s.tickMs),
    ("max_error_chars", .nat s.maxErrorChars),
    ("max_summary_chars", .nat s.maxSummaryChars),
    ("default_model", .str s.defaultModel)]

/-- Reading settings: what is absent has its usual value. -/
def ofJson? (v : Json) : Option SchedulerSettings := do
  let usual : SchedulerSettings := {}
  let number := Json.withDefault? (Json.asNat? Text.uint64Max)
  guard v.isObject
  return {
    enabled := ← Json.withDefault? Json.asBool? usual.enabled "enabled" v
    concurrency := ← number usual.concurrency "concurrency" v
    tickMs := ← number usual.tickMs "tick_ms" v
    maxErrorChars := ← number usual.maxErrorChars "max_error_chars" v
    maxSummaryChars := ← number usual.maxSummaryChars "max_summary_chars" v
    defaultModel := ← Json.withDefault? Json.asString? usual.defaultModel "default_model" v }

end SchedulerSettings

/-! ### The program -/

/-- **The settings of the program.** -/
structure Settings where
  /-- The file that holds the tables. -/
  databasePath : String
  /-- The settings of the scheduler. -/
  scheduler : SchedulerSettings := {}
  /-- Whether messages are written as JSON. -/
  logJson : Bool := false
  deriving Repr, DecidableEq

namespace Settings

/-- The folder that holds what belongs to a person: the given home, or the current one. -/
def homeFolder (home : Option String) : String :=
  home.getD "."

/-- Where the tables are kept unless a setting says otherwise. -/
def usualDatabasePath (home : Option String) : String :=
  homeFolder home ++ "/.cadence/cadence.db"

/-- Where the settings are read from unless a path is given. -/
def usualFile (home : Option String) : String :=
  homeFolder home ++ "/.cadence/cadence.toml"

/-- The usual settings. -/
def usual (home : Option String) : Settings :=
  { databasePath := usualDatabasePath home }

/-- The settings as JSON. -/
def toJson (s : Settings) : Json :=
  .obj [
    ("database", .obj [("path", .str s.databasePath)]),
    ("scheduler", s.scheduler.toJson),
    ("logging", .obj [("json", .bool s.logJson)])]

end Settings

end Timetable
