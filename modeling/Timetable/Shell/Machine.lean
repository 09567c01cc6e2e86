/-
**The state of the shell.**

The shell keeps variables, named commands and the files that its commands have written, and knows
where outputs go.  Time passes only where a command waits.  A task that would go on after the time
it has is stopped then, and so is one that would never end.

Main definitions:

* `Shell.Target` — where an output goes;
* `Shell.Stop` — why a command does not go on;
* `Shell.Machine` — **the state of the shell**;
* `Shell.Act` — what changes the state and may stop;
* `Shell.write`, `Shell.pass`, `Shell.capture` — output, the passing of time, and output kept.
-/

import Timetable.Shell.Script

set_option autoImplicit false
set_option relaxedAutoImplicit false

namespace Timetable.Shell

/-! ### The state -/

/-- **Where an output goes.** -/
inductive Target where
  /-- It is kept under a number. -/
  | sink (n : Nat)
  /-- Nowhere. -/
  | nowhere
  /-- Into a file. -/
  | file (path : Bytes)
  deriving Repr, DecidableEq

/-- **Why a command does not go on.** -/
inductive Stop where
  /-- The shell ends with a code. -/
  | exited (code : Nat)
  /-- The shell was killed by the signal with a number. -/
  | killed (signal : Nat)
  /-- The time is over. -/
  | outOfTime
  /-- So many loops end. -/
  | broke (levels : Nat)
  /-- So many loops end, the last one for this time only. -/
  | continued (levels : Nat)
  /-- A named command ends with a code. -/
  | returned (code : Nat)
  deriving Repr, DecidableEq

/-- **The state of the shell.** -/
structure Machine where
  /-- The variables. -/
  values : List (String × Bytes)
  /-- The variables that scripts run by this one are told. -/
  exported : List String := []
  /-- The arguments. -/
  arguments : List Bytes := []
  /-- The named commands. -/
  functions : List (String × Command) := []
  /-- The outputs that are kept, the last byte first: the output, the messages, and others. -/
  sinks : List Bytes := [[], []]
  /-- The files that have been written. -/
  files : List (Bytes × Bytes) := []
  /-- Where the outputs go. -/
  targets : List (Nat × Target) := [(1, .sink 0), (2, .sink 1)]
  /-- The input that is left. -/
  input : Bytes := []
  /-- The code of the last command. -/
  status : Nat := 0
  /-- The shell ends as soon as a command fails. -/
  strict : Bool := false
  /-- Variables that have not been set must not be asked for. -/
  careful : Bool := false
  /-- The code of the command is asked for. -/
  tested : Bool := false
  /-- What happens at a signal, or at the end. -/
  traps : List (String × Bytes) := []
  /-- The milliseconds that have passed. -/
  elapsed : Nat := 0
  /-- The milliseconds that the task has. -/
  limit : Nat

/-- **What changes the state and may stop.** -/
abbrev Act : Type → Type := ExceptT Stop (StateM Machine)

/-- What an action gives, a stop being an answer like any other. -/
def attempt {α : Type} (act : Act α) : Act (Except Stop α) :=
  ExceptT.mk do
    let r ← act.run
    return .ok r

/-- An answer of `attempt`, a stop stopping again. -/
def resume {α : Type} : Except Stop α → Act α
  | .ok a => pure a
  | .error e => throw e

/-! ### Variables -/

/-- A list of named values with one value set. -/
def setIn {κ α : Type} [DecidableEq κ] (name : κ) (v : α) : List (κ × α) → List (κ × α)
  | [] => [(name, v)]
  | (k, w) :: rest => if k = name then (k, v) :: rest else (k, w) :: setIn name v rest

/-- The value of a variable. -/
def Machine.variable? (m : Machine) (name : String) : Option Bytes := m.values.lookup name

/-- The variables that other scripts are told. -/
def Machine.told (m : Machine) : List (String × Bytes) :=
  m.values.filter fun (name, _) => m.exported.contains name

/-- Other scripts are told a variable. -/
def tell (name : String) : Act Unit :=
  modify fun m =>
    { m with exported := if m.exported.contains name then m.exported else name :: m.exported }

/-- A variable is set. -/
def setVariable (name : String) (v : Bytes) : Act Unit :=
  modify fun m => { m with values := setIn name v m.values }

/-! ### Files -/

/-- The contents of a file. -/
def Machine.file? (m : Machine) (path : Bytes) : Option Bytes :=
  if String.ofList path = "/dev/null" then some [] else m.files.lookup path

/-- The files that stand for nothing, for the output and for the messages. -/
def Machine.targetOf (m : Machine) (path : Bytes) : Target :=
  match String.ofList path with
  | "/dev/null" => .nowhere
  | "/dev/stdout" => (m.targets.lookup 1).getD .nowhere
  | "/dev/stderr" => (m.targets.lookup 2).getD .nowhere
  | _ => .file path

/-! ### Output and time -/

/-- Bytes go to a target. -/
def Machine.send (m : Machine) (t : Target) (bytes : Bytes) : Machine :=
  match t with
  | .nowhere => m
  | .sink n => { m with sinks := m.sinks.modify n (bytes.reverse ++ ·) }
  | .file path =>
    { m with files := setIn path ((m.files.lookup path).getD [] ++ bytes) m.files }

/-- **Bytes are written** to an output. -/
def write (descriptor : Nat) (bytes : Bytes) : Act Unit :=
  modify fun m => m.send ((m.targets.lookup descriptor).getD .nowhere) bytes

/-- A message is written. -/
def complain (message : String) : Act Unit :=
  write 2 (Text.bytesOf (message ++ "\n"))

/-- **Time passes**; the task stops when it has no more. -/
def pass (milliseconds : Nat) : Act Unit := do
  let m ← get
  set { m with elapsed := m.elapsed + milliseconds }
  if m.limit ≤ m.elapsed + milliseconds then throw .outOfTime

/-- **What an action writes** is kept and given instead. -/
def capture (act : Act Unit) : Act Bytes := do
  let m ← get
  let n := m.sinks.length
  set { m with sinks := m.sinks ++ [[]], targets := setIn 1 (.sink n) m.targets }
  let r ← attempt act
  modify fun m' => { m' with targets := m.targets }
  resume r
  return ((← get).sinks.getD n []).reverse

/-- An action whose changes to the shell are forgotten: what it wrote, read and waited for, and the
code it ended with, are not. -/
def inSubshell (act : Act Unit) : Act Unit := do
  let m ← get
  let r ← attempt act
  let m' ← get
  let status :=
    match r with
    | .error (.exited code) => code
    | _ => m'.status
  set { m with
    sinks := m'.sinks
    files := m'.files
    input := m'.input
    elapsed := m'.elapsed
    status }
  match r with
  | .error (.killed signal) => throw (.killed signal)
  | .error .outOfTime => throw .outOfTime
  | _ => pure ()

end Timetable.Shell
