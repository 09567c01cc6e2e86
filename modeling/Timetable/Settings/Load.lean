/-
**Loading settings.**

The settings of the program are read from a file and from the environment.  The file is the one that
is named, else the one that a variable names, else the usual one; a file that does not exist says
nothing.  Names that are not known are ignored, what is not said has its usual value, and a value of
the wrong kind, or a number out of range, spoils the whole.  A section may also be given as a list
of its values in their usual order.

Main definitions:

* `Section.ofSetting?` — a section of the settings;
* `Settings.decode?` — **settings from named values**;
* `Settings.fileOf` — the file that settings are read from;
* `Settings.load?` — **loading settings**, `Settings.ofFile?` — from a single file.
-/

import Timetable.Settings.Basic
import Timetable.Settings.Environment
import Timetable.Toml.Document

set_option autoImplicit false
set_option relaxedAutoImplicit false

namespace Timetable

/-! ### Sections -/

/-- The named values of a section. -/
abbrev Section : Type := List (String × Setting)

namespace Section

/-- **A section**, whose values have the given names; one that is not there has no values. -/
def ofSetting? (names : List String) : Option Setting → Option Section
  | none => some []
  | some (.table fields) => some fields
  | some (.list items) => some (names.zip items)
  | some .moment => some []
  | some _ => none

/-- A value of a section, read; the usual one when it is not there. -/
def get? {α : Type} (s : Section) (read : Setting → Option α) (usual : α) (name : String) :
    Option α :=
  match s.lookup name with
  | none => some usual
  | some v => read v

end Section

namespace Setting

/-- A truth value. -/
def asFlag? : Setting → Option Bool
  | flag b => some b
  | _ => none

/-- A number that is neither negative nor too large. -/
def asCount? : Setting → Option Nat
  | number n => if 0 ≤ n ∧ n ≤ Text.uint64Max then some n.toNat else none
  | _ => none

/-- A text. -/
def asText? : Setting → Option String
  | text s => some s
  | _ => none

end Setting

/-! ### Decoding -/

/-- The settings of the scheduler. -/
def SchedulerSettings.ofSetting? (v : Option Setting) : Option SchedulerSettings := do
  let usual : SchedulerSettings := {}
  let s ← Section.ofSetting?
    ["enabled", "concurrency", "tick_ms", "max_error_chars", "max_summary_chars", "default_model"] v
  return {
    enabled := ← s.get? Setting.asFlag? usual.enabled "enabled"
    concurrency := ← s.get? Setting.asCount? usual.concurrency "concurrency"
    tickMs := ← s.get? Setting.asCount? usual.tickMs "tick_ms"
    maxErrorChars := ← s.get? Setting.asCount? usual.maxErrorChars "max_error_chars"
    maxSummaryChars := ← s.get? Setting.asCount? usual.maxSummaryChars "max_summary_chars"
    defaultModel := ← s.get? Setting.asText? usual.defaultModel "default_model" }

namespace Settings

/-- **Settings from named values**, for a person with the given home. -/
def decode? (home : Option String) (fields : Section) : Option Settings := do
  let database ← Section.ofSetting? ["path"] (fields.lookup "database")
  let scheduler ← SchedulerSettings.ofSetting? (fields.lookup "scheduler")
  let logging ← Section.ofSetting? ["json"] (fields.lookup "logging")
  return {
    databasePath := ← database.get? Setting.asText? (usualDatabasePath home) "path"
    scheduler
    logJson := ← logging.get? Setting.asFlag? false "json" }

/-! ### Loading -/

/-- The surroundings of the program: its variables and the files that can be read. -/
structure Surroundings where
  /-- The variables of the environment. -/
  environment : List (String × String)
  /-- The contents of a file, if it exists. -/
  file? : String → Option String

/-- The home of the person. -/
def Surroundings.home (s : Surroundings) : Option String := s.environment.lookup "HOME"

/-- **The file that settings are read from.** -/
def fileOf (s : Surroundings) (named : Option String) : String :=
  (named.or (s.environment.lookup "CADENCE_CONFIG")).getD (usualFile s.home)

/-- The named values of a file; one that does not exist says nothing. -/
def readFile? (s : Surroundings) (path : String) : Option Section :=
  match s.file? path with
  | none => some []
  | some contents => Toml.parse? contents

/-- Settings from a single file, whatever the variables say about them. -/
def ofFile? (s : Surroundings) (path : String) : Option Settings := do
  decode? s.home (← readFile? s path)

/-- **Loading settings**, from a named file or another one, and from the environment. -/
def load? (s : Surroundings) (named : Option String) : Option Settings := do
  let fields ← readFile? s (fileOf s named)
  decode? s.home (Setting.overlayFields fields (Environment.settings s.environment))

/-- The settings of the program: when they cannot be loaded, the usual ones. -/
def loadOrUsual (s : Surroundings) (named : Option String) : Settings :=
  (load? s named).getD (usual s.home)

end Settings

end Timetable
