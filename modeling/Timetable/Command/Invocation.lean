/-
**Invocations.**

A command line asks for a command and may say, at every level, which settings to use and how to
write messages.  The command line is read from the outermost level inwards, but a level is checked
as a whole only after the levels below it have been.

Main definitions:

* `Invocation` — what a command line asks for;
* `Invocation.parse` — **reading a command line**.
-/

import Timetable.Command.Basic
import Timetable.Command.Line

set_option autoImplicit false
set_option relaxedAutoImplicit false

namespace Timetable

/-- **What a command line asks for.** -/
structure Invocation where
  /-- The file that the settings are read from. -/
  config : Option String
  /-- Whether messages are written as JSON. -/
  logJson : Bool
  /-- The command. -/
  command : Command
  deriving Repr, DecidableEq

namespace Command

/-! ### Values -/

/-- Any text is possible. -/
def anyText (_ : String) : Bool := true

/-- A whole number is possible. -/
def anyNumber (value : String) : Bool := (Text.int64? value).isSome

/-- A number of rows is possible. -/
def anyCount (value : String) : Bool := (Text.uint64? value).isSome

/-- The name of an order is possible. -/
def anyOrder (value : String) : Bool := (JobOrder.parse value).toOption.isSome

/-! ### The levels -/

/-- A level, with the flag and the option that every level has. -/
def level (path flags : List String) (options : List (String × (String → Bool)))
    (takesTarget : Bool) : Grammar :=
  { path
    flags := "log-json" :: flags
    options := ("config", anyText) :: options
    takesTarget
    showsVersion := path.isEmpty }

/-- The outermost level. -/
def rootLevel : Grammar := level [] [] [] false

/-- The level of `serve`. -/
def serveLevel : Grammar := level ["serve"] [] [] false

/-- The level of `job`. -/
def jobLevel : Grammar := level ["job"] [] [] false

/-- The level of `job add`. -/
def addLevel : Grammar :=
  level ["job", "add"] ["run-once", "disabled"]
    [("name", anyText), ("task", anyText), ("cron", anyText), ("every", anyNumber),
      ("model", anyText), ("timeout", anyNumber), ("notify", anyText)] false

/-- The level of `job list`. -/
def listLevel : Grammar :=
  level ["job", "list"] ["enabled", "disabled"]
    [("query", anyText), ("order", anyOrder), ("limit", anyCount)] false

/-- The level of a command that takes a job and nothing else. -/
def targetLevel (name : String) : Grammar := level ["job", name] [] [] true

/-- The level of `runs`. -/
def runsLevel : Grammar := level ["runs"] [] [("limit", anyCount)] true

/-! ### Requests -/

/-- The length of a list when none is given. -/
def usualLimit : Nat := 20

/-- Something that must be given. -/
def required {α : Type} : Option α → Except UsageError α
  | some a => .ok a
  | none => .error .missingArgument

/-- A number of rows. -/
def limitOf (r : Reading) : Nat :=
  ((r.value? "limit").bind Text.uint64?).getD usualLimit

/-- The request of `job add`: of a cron expression and an interval exactly one is given. -/
def addRequest (r : Reading) : Except UsageError AddRequest := do
  let cron := r.value? "cron"
  let every := (r.value? "every").bind Text.int64?
  if cron.isSome && every.isSome then throw .conflict
  let name ← required (r.value? "name")
  let task ← required (r.value? "task")
  if cron.isNone && every.isNone then throw .missingArgument
  return {
    name, task, cron, every
    runOnce := r.flag "run-once"
    model := r.value? "model"
    timeout := (r.value? "timeout").bind Text.int64?
    notify := r.value? "notify"
    disabled := r.flag "disabled" }

/-- The request of `job list`: enabled and disabled jobs exclude each other. -/
def listRequest (r : Reading) : Except UsageError ListRequest := do
  if r.flag "enabled" && r.flag "disabled" then throw .conflict
  let order := (r.value? "order").bind fun text => (JobOrder.parse text).toOption
  return {
    enabled := r.flag "enabled"
    disabled := r.flag "disabled"
    query := r.value? "query"
    order := order.getD .updatedAtDesc
    limit := limitOf r }

/-! ### Reading a command line -/

/-- What has been read from a level inwards: the file of the settings, the kind of messages, and
what else was asked for. -/
structure Inner (α : Type) where
  /-- The file that the settings are read from. -/
  config : Option String
  /-- Whether messages are written as JSON. -/
  logJson : Bool
  /-- What is asked for. -/
  content : α

/-- An innermost level: it is read to its end, and its content is checked. -/
def readLeaf {α : Type} (g : Grammar) (content : Reading → Except UsageError α)
    (words : List String) : Except UsageError (Inner α) := do
  let (r, _) ← g.read {} words
  let r ← g.settle r
  return { config := r.value? "config", logJson := r.flag "log-json", content := ← content r }

/-- A level whose commands are read by the given function.  What is said further inside about the
settings counts more. -/
def readBranch {α : Type} (g : Grammar)
    (below : String → List String → Except UsageError (Inner α)) (words : List String) :
    Except UsageError (Inner α) := do
  let (r, next) ← g.read {} words
  match next with
  | some (name, rest) =>
    let inner ← below name rest
    let r ← g.settle r
    return {
      config := inner.config.or (r.value? "config")
      logJson := inner.logJson || r.flag "log-json"
      content := inner.content }
  | none =>
    let r ← g.settle r
    throw (if r.isEmpty then .nothingGiven else .missingCommand)

/-- The commands below `job`. -/
def readJobCommand (name : String) (words : List String) : Except UsageError (Inner Command) :=
  match name with
  | "add" => readLeaf addLevel (fun r => (addRequest r).map (.manage ∘ .add)) words
  | "list" => readLeaf listLevel (fun r => (listRequest r).map (.manage ∘ .list)) words
  | "disable" =>
    readLeaf (targetLevel name) (fun r => (required r.target).map (.manage ∘ .disable)) words
  | "delete" =>
    readLeaf (targetLevel name) (fun r => (required r.target).map (.manage ∘ .delete)) words
  | _ => .error .unknownCommand

/-- The outermost commands. -/
def readCommand (name : String) (words : List String) : Except UsageError (Inner Command) :=
  match name with
  | "serve" => readLeaf serveLevel (fun _ => .ok .serve) words
  | "job" => readBranch jobLevel readJobCommand words
  | "runs" =>
    readLeaf runsLevel
      (fun r => (required r.target).map fun target => .manage (.runs target (limitOf r))) words
  | _ => .error .unknownCommand

end Command

/-- **Reading a command line**: the words after the name of the program. -/
def Invocation.parse (words : List String) : Except Command.UsageError Invocation := do
  let inner ← Command.readBranch Command.rootLevel Command.readCommand words
  return { config := inner.config, logJson := inner.logJson, command := inner.content }

end Timetable
