/-
**Running scripts.**

A command is run by replacing the pieces of its words by what they stand for, sending its outputs
where they belong, and doing what its first word says.  A script that takes more steps than it is
given is taken for one that never ends.

Main definitions:

* `Shell.Fields` — words in the making, when values fall apart at their blanks;
* `Shell.runCommand`, `Shell.runScript` — **running commands and scripts**;
* `Shell.Result`, `Shell.execute` — **running a task**.
-/

import Timetable.Shell.Arithmetic
import Timetable.Shell.Reader
import Timetable.Shell.Tools

set_option autoImplicit false
set_option relaxedAutoImplicit false

namespace Timetable.Shell

/-! ### Fields -/

/-- **Words in the making.** -/
structure Fields where
  /-- The finished words, the last one first. -/
  finished : List Bytes := []
  /-- The word that is growing, its last byte first. -/
  growing : Option Bytes := none
  deriving Repr, DecidableEq

namespace Fields

/-- The growing word is finished. -/
def finish (f : Fields) : Fields :=
  match f.growing with
  | some w => { finished := w.reverse :: f.finished, growing := none }
  | none => f

/-- Bytes that stay together. -/
def keep (f : Fields) (bytes : Bytes) : Fields :=
  { f with growing := some (bytes.reverse ++ f.growing.getD []) }

/-- Bytes that fall apart at their blanks. -/
def split (f : Fields) (bytes : Bytes) : Fields :=
  bytes.foldl
    (fun f c => if c = ' ' ∨ c = '\t' ∨ c = '\n' then f.finish else f.keep [c]) f

/-- Several words, the first of which continues the growing one. -/
def keepAll (f : Fields) : List Bytes → Fields
  | [] => f
  | [w] => f.keep w
  | w :: ws => keepAll (f.keep w).finish ws

/-- The words. -/
def toList (f : Fields) : List Bytes := f.finish.finished.reverse

end Fields

/-! ### Patterns -/

/-- A pattern describes a text: a star stands for any text and a question mark for any character. -/
def describesAll : (steps : Nat) → (pattern text : Bytes) → Bool
  | 0, _, _ => false
  | _ + 1, [], text => text.isEmpty
  | steps + 1, '*' :: rest, text =>
    describesAll steps rest text ||
      match text with
      | _ :: more => describesAll steps ('*' :: rest) more
      | [] => false
  | steps + 1, '?' :: rest, _ :: more => describesAll steps rest more
  | steps + 1, '\\' :: c :: rest, d :: more => c == d && describesAll steps rest more
  | steps + 1, c :: rest, d :: more => c == d && describesAll steps rest more
  | _ + 1, _ :: _, [] => false

/-- A pattern describes all of a text. -/
def isDescribed (pattern text : Bytes) : Bool :=
  describesAll (2 * (pattern.length + text.length) + 2) pattern text

/-- A text without what a pattern describes at its start: the least or the most of it. -/
def dropStart (most : Bool) (pattern text : Bytes) : Bytes :=
  let cuts := (List.range (text.length + 1)).filter fun n => isDescribed pattern (text.take n)
  match if most then cuts.getLast? else cuts.head? with
  | some n => text.drop n
  | none => text

/-- A text without what a pattern describes at its end. -/
def dropEnd (most : Bool) (pattern text : Bytes) : Bytes :=
  let cuts := (List.range (text.length + 1)).filter fun n => isDescribed pattern (text.drop n)
  match if most then cuts.head? else cuts.getLast? with
  | some n => text.take n
  | none => text

/-! ### Values -/

/-- The value of a variable, special ones included; nothing if it is not set. -/
def Machine.value? (m : Machine) (name : String) : Option Bytes :=
  match name with
  | "?" => some (ascii (Text.natText m.status))
  | "$" => some shellNumber
  | "#" => some (ascii (Text.natText m.arguments.length))
  | "@" | "*" => some (unwords m.arguments)
  | "!" | "-" => some []
  | "0" => some (ascii "sh")
  | _ =>
    match natOf? name.toList with
    | some n => m.arguments[n - 1]?
    | none => m.variable? name

/-- A text without the line ends at its end. -/
def dropLineEnds (cs : Bytes) : Bytes :=
  (cs.reverse.dropWhile (· == '\n')).reverse

/-- The operator at the start of an adjustment, and what follows it. -/
def operatorOf (adjustment : Bytes) : String × Bytes :=
  match adjustment with
  | a :: b :: rest =>
    let two := String.ofList [a, b]
    if [":-", ":=", ":+", ":?", "%%", "##"].contains two then (two, rest)
    else (String.ofList [a], b :: rest)
  | _ => (String.ofList adjustment, [])

/-- The code of the last command is set. -/
def setStatus (code : Nat) : Act Unit :=
  modify fun m => { m with status := code }

/-- The shell ends because of a mistake in the script. -/
def abort {α : Type} (message : String) : Act α := do
  complain ("sh: 1: " ++ message)
  throw (.exited 2)

/-- The value of a variable, which a careful shell must know. -/
def valueOf (name : String) : Act Bytes := do
  let m ← get
  match m.value? name with
  | some v => return v
  | none => if m.careful then abort (name ++ ": parameter not set") else return []

/-! ### Tests -/

/-- A command whose code is asked for. -/
def tested (act : Act Unit) : Act Unit := do
  let m ← get
  set { m with tested := true }
  let r ← attempt act
  modify fun m' => { m' with tested := m.tested }
  resume r

/-- A strict shell ends when a command has failed whose code is not asked for. -/
def endIfFailed : Act Unit := do
  let m ← get
  if m.strict && !m.tested && m.status != 0 then throw (.exited m.status)

/-! ### Loops -/

/-- What a loop does about a stop inside it: whether it goes on. -/
def loopAfter : Except Stop Unit → Act Bool
  | .ok () => return true
  | .error (.broke n) => if 1 < n then throw (.broke (n - 1)) else return false
  | .error (.continued n) => if 1 < n then throw (.continued (n - 1)) else return true
  | .error e => throw e

/-- An action for each of some words, until it says that it is enough. -/
def forWhile (act : Bytes → Act Bool) : List Bytes → Act Unit
  | [] => pure ()
  | w :: ws => do
    if ← act w then forWhile act ws

/-! ### Outputs -/

/-- An input or output goes elsewhere; the answer says whether that was possible. -/
def redirect (descriptor : Nat) (kind : RedirectKind) (target : Bytes) : Act Bool := do
  let m ← get
  let set (t : Target) : Machine := { m with targets := setIn descriptor t m.targets }
  match kind with
  | .read =>
    match m.file? target with
    | some text =>
      MonadStateOf.set { m with input := text }
      return true
    | none =>
      complain ("sh: 1: cannot open " ++ Text.ofBytes target ++ ": No such file")
      return false
  | .write =>
    let t := m.targetOf target
    let m' := set t
    MonadStateOf.set (match t with
      | .file path => { m' with files := setIn path [] m'.files }
      | _ => m')
    return true
  | .append =>
    MonadStateOf.set (set (m.targetOf target))
    return true
  | .text =>
    MonadStateOf.set { m with input := target }
    return true
  | .duplicate =>
    let t :=
      match natOf? target with
      | some n => (m.targets.lookup n).getD .nowhere
      | none => .nowhere
    MonadStateOf.set (set t)
    return true

/-- The name of a tool without the folder that tools are kept in. -/
def toolName (name : String) : String :=
  match (["/bin/", "/usr/bin/"].filter fun folder => name.startsWith folder).head? with
  | some folder => String.ofList (name.toList.drop folder.length)
  | none => name

/-- Commands that run others. -/
def runners : List String :=
  ["eval", "command", "exec", "sh", "dash", "bash", "kill"]

/-- There is a command with a name. -/
def isCommand (name : String) : Bool :=
  runners.contains (toolName name) || (tool? (toolName name)).isSome

/-- The signal and the processes of a `kill` command. -/
def killRequest : List Bytes → Except String (String × List Bytes)
  | ['-', 's'] :: name :: rest =>
    match signal? name with
    | some signal => .ok (signal, rest)
    | none => .error ("invalid signal number or name: " ++ Text.ofBytes name)
  | ('-' :: name) :: rest =>
    match signal? name with
    | some signal => .ok (signal, rest)
    | none => .error ("Illegal option -" ++ Text.ofBytes (name.take 1))
  | rest => .ok ("TERM", rest)

/-- What is said about a `kill` command without a process. -/
def killUsage : String :=
  "Usage: kill [-s sigspec | -signum | -sigspec] [pid | job]... or\nkill -l [exitstatus]"

/-! ### Running -/

mutual

/-- What a piece of a word stands for. -/
def pieceText : (steps : Nat) → Piece → Act Bytes
  | 0, _ => throw .outOfTime
  | steps + 1, piece =>
    match piece with
    | .literal _ text => return text
    | .variable _ name => valueOf name
    | .length name => return ascii (Text.natText (← valueOf name).length)
    | .output _ script => do
      let text ← capture (inSubshell do
        modify fun m => { m with tested := false }
        runScript steps script)
      return dropLineEnds text
    | .value expression => do
      let text ← innerText steps expression
      let m ← get
      let value (name : String) : Int := (((m.value? name).bind intOf?).getD 0)
      match arithmetic value text with
      | .ok n => return ascii (Text.intText n)
      | .error e =>
        abort ("arithmetic expression: " ++ e.message ++ ": \"" ++ Text.ofBytes text ++ "\"")
    | .adjusted _ name adjustment => do
      let v := (← get).value? name
      let (op, rest) := operatorOf adjustment
      let present := v.any fun v => !v.isEmpty || !op.startsWith ":"
      match op with
      | ":-" | "-" => if present then return v.getD [] else innerText steps rest
      | ":+" | "+" => if present then innerText steps rest else return []
      | ":=" | "=" =>
        if present then return v.getD []
        else
          let text ← innerText steps rest
          setVariable name text
          return text
      | ":?" | "?" =>
        if present then return v.getD []
        else
          let text ← innerText steps rest
          abort (name ++ ": " ++
            if text.isEmpty then "parameter not set" else Text.ofBytes text)
      | "%" => return dropEnd false (← innerText steps rest) (← valueOf name)
      | "%%" => return dropEnd true (← innerText steps rest) (← valueOf name)
      | "#" => return dropStart false (← innerText steps rest) (← valueOf name)
      | "##" => return dropStart true (← innerText steps rest) (← valueOf name)
      | _ => abort "Bad substitution"

/-- What a text between braces or parentheses stands for. -/
def innerText : (steps : Nat) → Bytes → Act Bytes
  | 0, _ => throw .outOfTime
  | steps + 1, cs =>
    match innerWord? cs with
    | some w => wordText steps w
    | none => abort "Bad substitution"

/-- What a word stands for, kept together. -/
def wordText : (steps : Nat) → Word → Act Bytes
  | 0, _ => throw .outOfTime
  | _ + 1, [] => return []
  | steps + 1, piece :: rest => do
    let text ← pieceText steps piece
    return text ++ (← wordText steps rest)

/-- The words that a word stands for. -/
def fieldsOf : (steps : Nat) → Fields → Word → Act Fields
  | 0, _, _ => throw .outOfTime
  | _ + 1, f, [] => return f
  | steps + 1, f, piece :: rest => do
    let f ←
      match piece with
      | .literal _ text => pure (f.keep text)
      | .variable true "@" => pure (f.keepAll (← get).arguments)
      | .variable false _ | .adjusted false _ _ | .output false _ =>
        pure (f.split (← pieceText steps piece))
      | _ => pure (f.keep (← pieceText steps piece))
    fieldsOf steps f rest

/-- The words that words stand for. -/
def allFields : (steps : Nat) → List Word → Act (List Bytes)
  | 0, _ => throw .outOfTime
  | _ + 1, [] => return []
  | steps + 1, w :: ws => do
    let f ← fieldsOf steps {} w
    return f.toList ++ (← allFields steps ws)

/-- Variables are set. -/
def assignWords : (steps : Nat) → List (String × Word) → Act Unit
  | 0, _ => throw .outOfTime
  | _ + 1, [] => pure ()
  | steps + 1, (name, w) :: rest => do
    setVariable name (← wordText steps w)
    assignWords steps rest

/-- Inputs and outputs go elsewhere, from left to right; the answer says whether that was
possible. -/
def redirectAll : (steps : Nat) → List Redirect → Act Bool
  | 0, _ => throw .outOfTime
  | _ + 1, [] => return true
  | steps + 1, r :: rest => do
    if ← redirect r.descriptor r.kind (← wordText steps r.target) then redirectAll steps rest
    else return false

/-- An action while inputs and outputs go elsewhere. -/
def withRedirects : (steps : Nat) → List Redirect → Act Unit → Act Unit
  | 0, _, _ => throw .outOfTime
  | steps + 1, rs, act => do
    if rs.isEmpty then act
    else
      let m ← get
      let fine ← attempt (redirectAll steps rs)
      let r ←
        match fine with
        | .ok true => attempt act
        | .ok false => do
          setStatus 2
          pure (.ok ())
        | .error e => pure (.error e)
      let ownInput := rs.any fun r => r.descriptor == 0
      modify fun m' =>
        { m' with targets := m.targets, input := if ownInput then m.input else m'.input }
      resume r

/-- The words of a command are run. -/
def runWords : (steps : Nat) → Bytes → List Bytes → Act Unit
  | 0, _, _ => throw .outOfTime
  | steps + 1, first, args => do
    let m ← get
    let name := String.ofList first
    match m.functions.lookup name with
    | some body =>
      set { m with arguments := args }
      let r ← attempt (runCommand steps body)
      modify fun m' => { m' with arguments := m.arguments }
      match r with
      | .error (.returned code) => setStatus code
      | r => resume r
    | none =>
      match toolName name, args with
      | "eval", _ => runScript steps (unwords args)
      | "command", ['-', 'v'] :: first :: _ =>
        if isCommand (String.ofList first) then
          write 1 (first ++ ['\n'])
          setStatus 0
        else setStatus 127
      | "command", first :: rest => runWords steps first rest
      | "exec", first :: rest =>
        if isCommand (String.ofList first) then
          runWords steps first rest
          throw (.exited (← get).status)
        else
          complain ("sh: 1: exec: " ++ Text.ofBytes first ++ ": not found")
          throw (.exited 127)
      | "sh", ['-', 'c'] :: script :: rest
      | "dash", ['-', 'c'] :: script :: rest
      | "bash", ['-', 'c'] :: script :: rest =>
        let r ← attempt (inSubshell do
          modify fun m =>
            { m with
              values := m.told
              arguments := rest.drop 1
              functions := []
              traps := []
              strict := false
              careful := false }
          runScript steps script)
        match r with
        | .error (.killed signal) => setStatus (128 + signal)
        | r => resume r
      | "kill", _ => kill steps args
      | tool, _ =>
        match tool? tool with
        | some act => do
          let code ← act args
          setStatus code
        | none =>
          complain ("sh: 1: " ++ Text.ofBytes first ++ ": not found")
          setStatus 127

/-- A signal is sent; only the shell itself is there to get one. -/
def kill : (steps : Nat) → List Bytes → Act Unit
  | 0, _ => throw .outOfTime
  | steps + 1, args => do
    match killRequest args with
    | .ok (_, []) =>
      complain ("sh: 1: kill: " ++ killUsage)
      setStatus 2
    | .error message =>
      complain ("sh: 1: kill: " ++ message)
      setStatus 2
    | .ok (signal, process :: _) =>
      if process = shellNumber ∨ process = ['0'] then
        match (← get).effect signal with
        | .ignored => setStatus 0
        | .script text => do
          runScript steps text
          setStatus 0
        | .halted => throw .outOfTime
        | .killed => throw (.killed ((signals.lookup signal).getD 0))
      else if (intOf? process).isSome then
        complain "sh: 1: kill: No such process\n"
        setStatus 1
      else
        complain ("sh: 1: kill: Illegal number: " ++ Text.ofBytes process)
        setStatus 2

/-- Commands, the output of each being the input of the next one. -/
def runPipeline : (steps : Nat) → List Command → Act Unit
  | 0, _ => throw .outOfTime
  | _ + 1, [] => pure ()
  | steps + 1, [c] => inSubshell (runCommand steps c)
  | steps + 1, c :: d :: rest => do
    let text ← capture (inSubshell (runCommand steps c))
    modify fun m => { m with input := text }
    runPipeline steps (d :: rest)

/-- Commands one after the other. -/
def runAll : (steps : Nat) → List Command → Act Unit
  | 0, _ => throw .outOfTime
  | _ + 1, [] => pure ()
  | steps + 1, c :: rest => do
    runCommand steps c
    runAll steps rest

/-- The first clause one of whose patterns describes a text. -/
def runChoice : (steps : Nat) → Bytes → List (List Word × Command) → Act Unit
  | 0, _, _ => throw .outOfTime
  | _ + 1, _, [] => setStatus 0
  | steps + 1, text, (patterns, body) :: rest => do
    if ← anyDescribes steps text patterns then runCommand steps body
    else runChoice steps text rest

/-- One of some patterns describes a text. -/
def anyDescribes : (steps : Nat) → Bytes → List Word → Act Bool
  | 0, _, _ => throw .outOfTime
  | _ + 1, _, [] => return false
  | steps + 1, text, w :: ws => do
    if isDescribed (← wordText steps w) text then return true
    else anyDescribes steps text ws

/-- A loop whose body ended with a code the last time. -/
def runLoop : (steps : Nat) → Bool → Command → Command → Nat → Act Unit
  | 0, _, _, _, _ => throw .outOfTime
  | steps + 1, untilHolds, test, body, code => do
    tested (runCommand steps test)
    if ((← get).status == 0) == untilHolds then setStatus code
    else
      if ← loopAfter (← attempt (runCommand steps body)) then
        runLoop steps untilHolds test body (← get).status
      else setStatus 0

/-- **Running a command.** -/
def runCommand : (steps : Nat) → Command → Act Unit
  | 0, _ => throw .outOfTime
  | steps + 1, c => do
    match c with
    | .simple assignments words redirects =>
      let before ← get
      let fields ← allFields steps words
      match fields with
      | [] =>
        if words.isEmpty then setStatus 0
        withRedirects steps redirects (assignWords steps assignments)
      | [['e', 'x', 'e', 'c']] =>
        if ← redirectAll steps redirects then setStatus 0 else throw (.exited 2)
      | first :: args =>
        withRedirects steps redirects do
          assignWords steps assignments
          for (name, _) in assignments do tell name
          runWords steps first args
        if !assignments.isEmpty then
          modify fun m => { m with values := before.values, exported := before.exported }
      endIfFailed
    | .redirected body redirects => withRedirects steps redirects (runCommand steps body)
    | .sequence commands => runAll steps commands
    | .both first second =>
      tested (runCommand steps first)
      if (← get).status = 0 then runCommand steps second
    | .either first second =>
      tested (runCommand steps first)
      if (← get).status ≠ 0 then runCommand steps second
    | .inverted body =>
      tested (runCommand steps body)
      setStatus (if (← get).status = 0 then 1 else 0)
    | .pipeline commands =>
      let m ← get
      let r ← attempt (runPipeline steps commands)
      modify fun m' => { m' with input := m.input }
      resume r
      endIfFailed
    | .subshell body =>
      inSubshell (runCommand steps body)
      endIfFailed
    | .conditional test body otherwise =>
      tested (runCommand steps test)
      if (← get).status = 0 then runCommand steps body
      else
        setStatus 0
        runCommand steps otherwise
    | .loop untilHolds test body => runLoop steps untilHolds test body 0
    | .forEach name words body =>
      let fields ←
        match words with
        | some ws => allFields steps ws
        | none => pure (← get).arguments
      setStatus 0
      forWhile (fun w => do
        setVariable name w
        loopAfter (← attempt (runCommand steps body))) fields
    | .choice subject clauses => do
      let text ← wordText steps subject
      runChoice steps text clauses
    | .define name body =>
      modify fun m => { m with functions := setIn name body m.functions, status := 0 }

/-- **Running a script.** -/
def runScript : (steps : Nat) → Bytes → Act Unit
  | 0, _ => throw .outOfTime
  | steps + 1, script =>
    match parse script with
    | .ok c => runCommand steps c
    | .error e => abort e.message

end

/-! ### Tasks -/

/-- How a script ended. -/
inductive Verdict where
  /-- It ended with a code. -/
  | exited (code : Nat)
  /-- It was killed by a signal. -/
  | killed
  /-- It was stopped because its time was over. -/
  | outOfTime
  deriving Repr, DecidableEq

/-- **What became of a script.** -/
structure Result where
  /-- How it ended. -/
  verdict : Verdict
  /-- What it wrote. -/
  output : Bytes
  /-- The messages that it wrote. -/
  messages : Bytes
  deriving Repr, DecidableEq

/-- How many steps a script may take. -/
def stepLimit : Nat := 20000

/-- A script, and what was laid down for its end. -/
def runToEnd (script : Bytes) : Act Unit := do
  let r ← attempt (runScript stepLimit script)
  let m ← get
  let code :=
    match r with
    | .error (.exited code) | .error (.returned code) => code
    | _ => m.status
  match r, m.traps.lookup "EXIT" with
  | .error (.killed signal), _ => throw (.killed signal)
  | .error .outOfTime, _ => throw .outOfTime
  | _, some text =>
    setStatus code
    runScript stepLimit text
    throw (.exited code)
  | _, none => throw (.exited code)

/-- **Running a script** with some variables, for so many milliseconds at most. -/
def execute (values : List (String × Bytes)) (limit : Nat) (script : Bytes) : Result :=
  let (r, m) := (runToEnd script).run { values, exported := values.map (·.1), limit }
  let verdict :=
    match r with
    | .error (.exited code) => .exited code
    | .error (.killed _) => .killed
    | .error .outOfTime => .outOfTime
    | _ => .exited m.status
  { verdict
    output := (m.sinks.getD 0 []).reverse
    messages := (m.sinks.getD 1 []).reverse }

end Timetable.Shell
