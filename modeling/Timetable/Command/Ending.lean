/-
**How a call of the program ends.**

A call is answered with a JSON value, or it fails and says why, or its command line was refused.
What lies behind a failure is reported below it, one cause a line, numbered when there are several.

Main definitions:

* `Ending` — how a call ends;
* `Ending.code` — the exit code;
* `Ending.report` — **the report of a failure**;
* `Command.openingCauses` — why the store of a call could not be opened.
-/

import Timetable.Command.Line
import Timetable.Json.Basic
import Timetable.Store.File

set_option autoImplicit false
set_option relaxedAutoImplicit false

namespace Timetable

/-- What went wrong when the store at a path was opened, from the outside in. -/
def Command.openingCauses (path : String) (failure : OpenFailure) : List String :=
  ("failed to open database at " ++ path) :: failure.causes

/-- **How a call of the program ends.** -/
inductive Ending where
  /-- The command line was refused, or asked for help. -/
  | refused (e : Command.UsageError)
  /-- The command failed; the causes are given from the outside in. -/
  | failed (causes : List String)
  /-- The command answered. -/
  | answered (v : Json)

namespace Ending

/-- The exit code. -/
def code : Ending → Nat
  | refused .help | refused .version => 0
  | refused _ => 2
  | failed _ => 1
  | answered _ => 0

/-! ### Reports -/

/-- A text with its further lines indented. -/
def indented (indentation text : String) : String :=
  ("\n" ++ indentation).intercalate (text.splitOn "\n")

/-- The causes with their numbers, counted from the given one. -/
def numbered (n : Nat) : List String → String
  | [] => ""
  | cause :: rest =>
    let number := Text.natText n
    let margin := String.ofList (List.replicate (5 - number.length) ' ')
    "\n" ++ margin ++ number ++ ": " ++ indented "       " cause ++ numbered (n + 1) rest

/-- What lies behind a failure. -/
def behind : List String → String
  | [] => ""
  | [cause] => "\n\nCaused by:\n    " ++ indented "    " cause
  | causes => "\n\nCaused by:" ++ numbered 0 causes

/-- **The report of a failure.** -/
def report (causes : List String) : String :=
  "Error: " ++ causes.headD "" ++ behind causes.tail ++ "\n"

/-- What is written about a value: the value over several lines, its names in order. -/
def output (v : Json) : String :=
  v.sorted.pretty ++ "\n"

end Ending

end Timetable
