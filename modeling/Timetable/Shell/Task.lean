/-
**Tasks as scripts.**

The task of a job is a script.  The model and everything else that a task is told about its run are
variables of the script.  What the script writes is the summary of the run; a script that fails is
reported with its code and its messages, and one that is stopped with the cause.

Main definitions:

* `Shell.variableName`, `Shell.variableText`, `Shell.taskVariables` — what the script is told;
* `Shell.judge` — what became of the script, as the result of the task;
* `Shell.conduct` — **carrying out a task**, `Shell.runTask` — its result alone.
-/

import Timetable.Json.Basic
import Timetable.Shell.Run
import Timetable.Worker.Outcome

set_option autoImplicit false
set_option relaxedAutoImplicit false

namespace Timetable.Shell

/-! ### Variables -/

/-- The name of the variable that holds what stands under a name: letters become capital, and
everything that is neither a letter nor a digit of ASCII becomes an underscore. -/
def variableName (name : String) : String :=
  "CADENCE_" ++ String.ofList (name.toList.map fun c => if c.isAlphanum then c.toUpper else '_')

/-- What a variable says: a text as it is, and any other value as JSON. -/
def variableText : Json → String
  | .str s => s
  | v => v.sorted.render

/-- **What a script is told**, name by name in ascending order; of names that become the same
variable the last one counts. -/
def taskVariables (model : String) (metadata : List (String × Json)) : List (String × String) :=
  let named := metadata.foldl (fun acc f => Json.insertField f acc) []
  named.foldl (fun acc (name, v) => setIn (variableName name) (variableText v) acc)
    [(variableName "model", model)]

/-! ### Results -/

/-- The report of a task that was stopped. -/
def stoppedMessage (cause : StopCause) : String :=
  "task process killed: " ++ cause.message

/-- The report of a script that failed. -/
def failureMessage (code : String) (messages : Bytes) : String :=
  match Text.nonBlank? (Text.ofBytes messages) with
  | none => "exit code " ++ code
  | some text => "exit code " ++ code ++ ": " ++ text

/-- **What became of a script, as the result of a task.** -/
def judge (r : Result) : TaskResult :=
  match r.verdict with
  | .exited 0 => .ok (Text.nonBlank? (Text.ofBytes r.output))
  | .exited code => .error [failureMessage (Text.natText code) r.messages]
  | .killed => .error [failureMessage "none (signal)" r.messages]
  | .outOfTime => .error [stoppedMessage .deadline]

/-- What stopped a script from outside, if anything did. -/
def stopOf (r : Result) : Option StopCause :=
  match r.verdict with
  | .outOfTime => some .deadline
  | .exited _ | .killed => none

/-! ### Tasks -/

/-- A text that cannot be handed to a script. -/
def isUnspeakable (s : String) : Bool := s.toList.contains (Char.ofNat 0)

/-- **Carrying out a task** in a context that may have been stopped already, for so many
milliseconds at most: what has stopped it in the end, if anything has, and its result. -/
def conduct (stopped : Option StopCause) (limit : Nat) (task model : String)
    (metadata : List (String × Json)) : Option StopCause × TaskResult :=
  let values := taskVariables model metadata
  if isUnspeakable task || values.any (fun v => isUnspeakable v.2) then
    (stopped, .error ["failed to spawn sh", "nul byte found in provided data"])
  else
    match stopped with
    | some cause => (some cause, .error [stoppedMessage cause])
    | none =>
      if limit = 0 then (some .deadline, .error [stoppedMessage .deadline])
      else
        let r := execute (values.map fun (name, v) => (name, Text.bytesOf v)) limit
          (Text.bytesOf task)
        (stopOf r, judge r)

/-- The result of a task. -/
def runTask (stopped : Option StopCause) (limit : Nat) (task model : String)
    (metadata : List (String × Json)) : TaskResult :=
  (conduct stopped limit task model metadata).2

end Timetable.Shell
