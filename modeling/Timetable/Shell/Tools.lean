/-
**Tools of the shell.**

The commands that every shell offers or finds, as far as they concern themselves with text, time and
the state of the shell.

Main definitions:

* `Shell.Tool` — tools;
* `Shell.tool?` — **the tool with a name**.
-/

import Timetable.Shell.Format
import Timetable.Shell.Machine
import Timetable.Text.Blank

set_option autoImplicit false
set_option relaxedAutoImplicit false

namespace Timetable.Shell

/-- **A tool**: what it does with its arguments, and the code it ends with. -/
abbrev Tool : Type := List Bytes → Act Nat

/-! ### Text -/

/-- The bytes of a text of ASCII. -/
def ascii (s : String) : Bytes := s.toList

/-- A text as a number. -/
def natOf? (cs : Bytes) : Option Nat := Text.digits? cs

/-- A text as a number with a sign. -/
def intOf? (cs : Bytes) : Option Int :=
  match numberOf cs with
  | (n, true) => some n
  | _ => none

/-- Words separated by single blanks. -/
def unwords (ws : List Bytes) : Bytes := [' '].intercalate ws

/-- The lines of a text; what follows the last line end is a line if it is not empty. -/
def lines (cs : Bytes) : List Bytes :=
  match (Text.splitWhere (· == '\n') cs).reverse with
  | [] :: rest => rest.reverse
  | ls => ls.reverse

/-- Lines with their ends. -/
def unlines (ls : List Bytes) : Bytes := ls.flatMap (· ++ ['\n'])

/-! ### Writing -/

/-- Its arguments. -/
def echo : Tool := fun args => do
  let (ended, args) :=
    match args with
    | ['-', 'n'] :: rest => (false, rest)
    | _ => (true, args)
  let text := unwords args
  let (text, early) := unescape (text.length + 1) text
  write 1 (if ended && !early then text ++ ['\n'] else text)
  return 0

/-- Its arguments, formatted. -/
def printf : Tool
  | [] => do
    complain "sh: 1: printf: usage: printf format [arg ...]"
    return 2
  | pattern :: args => do
    let f := format pattern args
    write 1 f.output.reverse
    for (what, why) in f.complaints do
      complain ("sh: 1: printf: " ++
        if what.isEmpty then why else Text.ofBytes what ++ ": " ++ why)
    return f.code

/-- The numbers from one to another. -/
def seq : Tool := fun args => do
  match args.mapM intOf? with
  | some [last] => count 1 1 last
  | some [first, last] => count first 1 last
  | some [first, step, last] => count first step last
  | _ =>
    complain "seq: invalid argument"
    return 1
where
  count (first step last : Int) : Act Nat := do
    if step = 0 then throw .outOfTime
    let steps := ((last - first) / step + 1).toNat
    write 1 (unlines ((List.range steps).map fun k : Nat =>
      ascii (Text.intText (first + k * step))))
    return 0

/-! ### Reading -/

/-- The input, all of it. -/
def takeInput : Act Bytes := do
  let m ← get
  set { m with input := [] }
  return m.input

/-- The contents of files, or the input; and whether all files were found. -/
def contents (tool : String) (paths : List Bytes) : Act (Bytes × Bool) := do
  if paths.isEmpty then return (← takeInput, true)
  let mut text : Bytes := []
  let mut fine := true
  for path in paths do
    if path = ['-'] then text := text ++ (← takeInput)
    else
      match (← get).file? path with
      | some more => text := text ++ more
      | none =>
        complain (tool ++ ": " ++ Text.ofBytes path ++ ": No such file or directory")
        fine := false
  return (text, fine)

/-- The contents of files. -/
def cat : Tool := fun args => do
  let (text, fine) ← contents "cat" args
  write 1 text
  return if fine then 0 else 1

/-- How much of a text is asked for. -/
inductive Extent where
  /-- So many lines. -/
  | lines (n : Nat)
  /-- So many bytes. -/
  | bytes (n : Nat)

/-- The extent that options ask for, and the other arguments. -/
def extent : List Bytes → Extent × List Bytes
  | ['-', 'n'] :: n :: rest => (.lines ((natOf? n).getD 0), rest)
  | ['-', 'c'] :: n :: rest => (.bytes ((natOf? n).getD 0), rest)
  | ('-' :: 'n' :: n) :: rest => (.lines ((natOf? n).getD 0), rest)
  | ('-' :: 'c' :: n) :: rest => (.bytes ((natOf? n).getD 0), rest)
  | ('-' :: c :: n) :: rest =>
    if c.isDigit then (.lines ((natOf? (c :: n)).getD 0), rest)
    else (.lines 10, ('-' :: c :: n) :: rest)
  | args => (.lines 10, args)

/-- The start of a text. -/
def head : Tool := fun args => do
  match extent args with
  | (.bytes n, [path]) =>
    if String.ofList path = "/dev/zero" then
      write 1 (List.replicate n (Text.byte 0))
      return 0
    else finish (.bytes n) [path]
  | (e, paths) => finish e paths
where
  finish (e : Extent) (paths : List Bytes) : Act Nat := do
    let (text, fine) ← contents "head" paths
    write 1 (match e with
      | .lines n => unlines ((lines text).take n)
      | .bytes n => text.take n)
    return if fine then 0 else 1

/-- The end of a text. -/
def tail : Tool := fun args => do
  let (e, paths) := extent args
  let (text, fine) ← contents "tail" paths
  write 1 (match e with
    | .lines n => unlines ((lines text).drop ((lines text).length - n))
    | .bytes n => text.drop (text.length - n))
  return if fine then 0 else 1

/-- How many lines, words and bytes a text has. -/
def wc : Tool := fun args => do
  let (options, paths) := args.span fun a => a.head? == some '-'
  let (text, fine) ← contents "wc" paths
  let words := (Text.splitWhere (fun c => c == ' ' || c == '\t' || c == '\n') text).filter
    fun w => !w.isEmpty
  let counts : List (Char × Nat) :=
    [('l', text.count '\n'), ('w', words.length), ('c', text.length)]
  let asked := options.flatMap (·.tail)
  let shown := counts.filter fun (c, _) => asked.isEmpty || asked.contains c
  let width := if shown.length = 1 then 0 else 7
  let name := if paths.isEmpty then [] else [unwords paths]
  write 1 (unwords (shown.map (fun (_, n) =>
    ({ width } : Directive).fill (ascii (Text.natText n))) ++ name) ++ ['\n'])
  return if fine then 0 else 1

/-- The characters of a set: ranges, classes and escapes stand for several or other characters. -/
def charSet : (steps : Nat) → Bytes → Bytes
  | 0, _ => []
  | _ + 1, [] => []
  | steps + 1, '[' :: ':' :: cs =>
    let name := String.ofList (cs.takeWhile (· != ':'))
    let rest := (cs.dropWhile (· != ']')).drop 1
    let members (p : Char → Bool) := ((List.range 128).map Text.byte).filter p
    let these :=
      match name with
      | "upper" => members Char.isUpper
      | "lower" => members Char.isLower
      | "digit" => members Char.isDigit
      | "alpha" => members Char.isAlpha
      | "alnum" => members Char.isAlphanum
      | "space" => [Text.byte 9, Text.byte 10, Text.byte 11, Text.byte 12, Text.byte 13, ' ']
      | _ => []
    these ++ charSet steps rest
  | steps + 1, '\\' :: c :: cs =>
    if digitValue c < 8 then
      let (b, rest) := octal 3 (c :: cs)
      b :: charSet steps rest
    else (letterEscape? c).getD c :: charSet steps cs
  | steps + 1, a :: '-' :: b :: cs =>
    (List.range (b.toNat + 1 - a.toNat)).map (fun k => Text.byte (a.toNat + k)) ++
      charSet steps cs
  | steps + 1, c :: cs => c :: charSet steps cs

/-- The input with characters replaced or left out. -/
def tr : Tool := fun args => do
  let set (cs : Bytes) := charSet (cs.length + 1) cs
  match args with
  | [['-', 'd'], unwanted] =>
    let unwanted := set unwanted
    write 1 ((← takeInput).filter fun c => !unwanted.contains c)
    return 0
  | [source, target] =>
    let source := set source
    let target := set target
    let last := target.getLast?.getD ' '
    let table := source.zip (target ++ List.replicate source.length last)
    write 1 ((← takeInput).map fun c => (table.lookup c).getD c)
    return 0
  | _ =>
    complain "tr: missing operand"
    return 1

/-- The lines of a text in ascending order. -/
def sort : Tool := fun args => do
  let (options, paths) := args.span fun a => a.head? == some '-'
  let asked := options.flatMap (·.tail)
  let (text, fine) ← contents "sort" paths
  let before (a b : Bytes) : Bool :=
    if asked.contains 'n' then (digitsIn 10 a).1 ≤ (digitsIn 10 b).1
    else String.ofList a ≤ String.ofList b
  let sorted := (lines text).mergeSort before
  let sorted := if asked.contains 'u' then sorted.eraseReps else sorted
  write 1 (unlines (if asked.contains 'r' then sorted.reverse else sorted))
  return if fine then 0 else 1

/-- The lines of a text without repetitions. -/
def uniq : Tool := fun args => do
  let (text, fine) ← contents "uniq" args
  write 1 (unlines (lines text).eraseReps)
  return if fine then 0 else 1

/-- A pattern describes the start of a text: a point stands for any character, a star for any number
of the character before it, and a dollar sign for the end. -/
def describesStart : (steps : Nat) → (pattern text : Bytes) → Bool
  | 0, _, _ => false
  | _ + 1, [], _ => true
  | _ + 1, ['$'], text => text.isEmpty
  | steps + 1, c :: '*' :: rest, text =>
    describesStart steps rest text ||
      match text with
      | d :: more => (c == '.' || c == d) && describesStart steps (c :: '*' :: rest) more
      | [] => false
  | steps + 1, '\\' :: c :: rest, d :: more => c == d && describesStart steps rest more
  | steps + 1, c :: rest, d :: more => (c == '.' || c == d) && describesStart steps rest more
  | _ + 1, _ :: _, [] => false

/-- The ends of a text, from the longest to the empty one. -/
def suffixes : Bytes → List Bytes
  | [] => [[]]
  | c :: cs => (c :: cs) :: suffixes cs

/-- A pattern describes some part of a text; after a caret, its start. -/
def describes (pattern text : Bytes) : Bool :=
  let steps := 2 * (pattern.length + text.length) + 2
  match pattern with
  | '^' :: rest => describesStart steps rest text
  | _ => (suffixes text).any (describesStart steps pattern)

/-- The lines that a pattern describes. -/
def grep : Tool := fun args => do
  let (options, rest) := args.span fun a => a.head? == some '-'
  let asked := options.flatMap (·.tail)
  match rest with
  | [] => return 2
  | pattern :: paths =>
    let (text, fine) ← contents "grep" paths
    let found := (lines text).filter fun l => describes pattern l != asked.contains 'v'
    if asked.contains 'c' then write 1 (ascii (Text.natText found.length) ++ ['\n'])
    else if !asked.contains 'q' then write 1 (unlines found)
    return if !fine then 2 else if found.isEmpty then 1 else 0

/-- One line of the input, split among variables. -/
def readLine : Tool := fun args => do
  let names := (args.filter (· != ['-', 'r'])).map String.ofList
  let m ← get
  let line := m.input.takeWhile (· != '\n')
  let left := m.input.drop line.length
  set { m with input := left.drop 1 }
  assign names (trimmed line)
  return if left.isEmpty then 1 else 0
where
  blank (c : Char) : Bool := c == ' ' || c == '\t'
  trimmed (cs : Bytes) : Bytes :=
    ((cs.dropWhile blank).reverse.dropWhile blank).reverse
  assign : List String → Bytes → Act Unit
    | [], _ => pure ()
    | [name], text => setVariable name text
    | name :: names, text => do
      let word := text.takeWhile (!blank ·)
      setVariable name word
      assign names ((text.drop word.length).dropWhile blank)

/-! ### The shell itself -/

/-- Nothing, successfully. -/
def succeed : Tool := fun _ => return 0

/-- Nothing, without success. -/
def fail : Tool := fun _ => return 1

/-- The variables that other scripts are told. -/
def environment : Tool := fun args => do
  let m ← get
  match args with
  | [] =>
    write 1 (unlines (m.told.map fun (name, v) => ascii name ++ '=' :: v))
    return 0
  | name :: _ =>
    match m.told.lookup (String.ofList name) with
    | some v =>
      write 1 (v ++ ['\n'])
      return 0
    | none => return 1

/-- Variables are set. -/
def assignAll : Tool := fun args => do
  for a in args do
    let name := a.takeWhile (· != '=')
    match a.drop name.length with
    | _ :: v => setVariable (String.ofList name) v
    | [] => pure ()
  return 0

/-- Variables are set, and other scripts are told. -/
def tellAll : Tool := fun args => do
  let code ← assignAll args
  for a in args do
    tell (String.ofList (a.takeWhile (· != '=')))
  return code

/-- Variables are forgotten. -/
def unset : Tool := fun args => do
  let names := args.map String.ofList
  modify fun m =>
    { m with
      values := m.values.filter fun (name, _) => !names.contains name
      functions := m.functions.filter fun (name, _) => !names.contains name }
  return 0

/-- Options of the shell are turned on or off. -/
def setOptions (on : Bool) (letters : Bytes) : Act Unit :=
  modify fun m =>
    { m with
      strict := if letters.contains 'e' then on else m.strict
      careful := if letters.contains 'u' then on else m.careful }

/-- Options of the shell and its arguments are set. -/
def setAll : List Bytes → Act Nat
  | [] => return 0
  | ['-', '-'] :: rest => do
    modify fun m => { m with arguments := rest }
    return 0
  | ('-' :: letters) :: rest => do
    setOptions true letters
    setAll rest
  | ('+' :: letters) :: rest => do
    setOptions false letters
    setAll rest
  | rest => do
    modify fun m => { m with arguments := rest }
    return 0

/-- The first arguments are dropped. -/
def shift : Tool := fun args => do
  let n := (args.head?.bind natOf?).getD 1
  let m ← get
  if m.arguments.length < n then
    complain "sh: 1: shift: can't shift that many"
    throw (.exited 2)
  set { m with arguments := m.arguments.drop n }
  return 0

/-- A code, or the one of the last command. -/
def codeOf (args : List Bytes) : Act Nat := do
  match args.head?.bind natOf? with
  | some n => return n % 256
  | none => return (← get).status

/-- A number of loops. -/
def levelsOf (args : List Bytes) : Nat := ((args.head?.bind natOf?).getD 1).max 1

/-- The shell ends. -/
def exit : Tool := fun args => do
  if args.head?.any fun a => (natOf? a).isNone then
    complain ("sh: 1: exit: Illegal number: " ++ Text.ofBytes (args.headD []))
    throw (.exited 2)
  throw (.exited (← codeOf args))

/-- A time in milliseconds: a number of seconds, possibly with a fraction, or of a larger unit. -/
def duration? (cs : Bytes) : Option Nat := do
  let whole := cs.takeWhile Char.isDigit
  let rest := cs.drop whole.length
  let (fraction, rest) :=
    match rest with
    | '.' :: rest => (rest.takeWhile Char.isDigit, rest.dropWhile Char.isDigit)
    | _ => ([], rest)
  if whole.isEmpty && fraction.isEmpty then none
  let unit ← match rest with
    | [] | ['s'] => some 1
    | ['m'] => some 60
    | ['h'] => some 3600
    | ['d'] => some 86400
    | _ => none
  let thousandths := (digitsIn 10 ((fraction ++ ['0', '0', '0']).take 3)).1
  return ((digitsIn 10 whole).1 * 1000 + thousandths) * unit

/-- Time passes. -/
def sleep : Tool := fun args => do
  match args.mapM duration? with
  | some (d :: ds) =>
    pass ((d :: ds).foldl (· + ·) 0)
    return 0
  | some [] =>
    complain "sleep: missing operand"
    complain "Try 'sleep --help' for more information."
    return 1
  | none =>
    for a in args do
      if (duration? a).isNone then
        complain ("sleep: invalid time interval ‘" ++ Text.ofBytes a ++ "’")
    complain "Try 'sleep --help' for more information."
    return 1

/-! ### Signals -/

/-- The signals and their numbers. -/
def signals : List (String × Nat) :=
  [("EXIT", 0), ("HUP", 1), ("INT", 2), ("QUIT", 3), ("ILL", 4), ("TRAP", 5), ("ABRT", 6),
    ("BUS", 7), ("FPE", 8), ("KILL", 9), ("USR1", 10), ("SEGV", 11), ("USR2", 12), ("PIPE", 13),
    ("ALRM", 14), ("TERM", 15), ("CHLD", 17), ("CONT", 18), ("STOP", 19), ("TSTP", 20),
    ("TTIN", 21), ("TTOU", 22), ("URG", 23), ("XCPU", 24), ("XFSZ", 25), ("VTALRM", 26),
    ("PROF", 27), ("WINCH", 28), ("IO", 29), ("PWR", 30), ("SYS", 31)]

/-- The name of a signal, by its name or number. -/
def signal? (cs : Bytes) : Option String :=
  match natOf? cs with
  | some n => (signals.find? fun s => s.2 == n).map (·.1)
  | none =>
    let name := Text.asciiUpper (String.ofList cs)
    let name := if name.startsWith "SIG" then String.ofList (name.toList.drop 3) else name
    if (signals.lookup name).isSome then some name else none

/-- The number by which the shell is known. -/
def shellNumber : Bytes := ['4', '2', '4', '2']

/-- What a signal does to the shell. -/
inductive Effect where
  /-- Nothing. -/
  | ignored
  /-- A script is run. -/
  | script (text : Bytes)
  /-- The shell is stopped for good. -/
  | halted
  /-- The shell is killed. -/
  | killed

/-- **What a signal does to the shell**: what was laid down for it, except for two signals that
cannot be caught. -/
def Machine.effect (m : Machine) (signal : String) : Effect :=
  if signal = "KILL" then .killed
  else if signal = "STOP" then .halted
  else
    match m.traps.lookup signal with
    | some [] => .ignored
    | some text => .script text
    | none =>
      if ["EXIT", "CHLD", "CONT", "URG", "WINCH"].contains signal then .ignored
      else if ["TSTP", "TTIN", "TTOU"].contains signal then .halted
      else .killed

/-- What happens at signals is laid down. -/
def trap : Tool := fun args => do
  match args with
  | [] => return 0
  | action :: names =>
    let names := names.filterMap signal?
    modify fun m =>
      let others := m.traps.filter fun (name, _) => !names.contains name
      { m with
        traps := if action = ['-'] then others else names.map (·, action) ++ others }
    return 0

/-! ### Conditions -/

/-- A condition of at most three words; without an answer, what is wrong with it. -/
def condition (m : Machine) : List Bytes → Except String Bool
  | [] => .ok false
  | [a] => .ok !a.isEmpty
  | [op, a] =>
    match String.ofList op with
    | "!" => .ok a.isEmpty
    | "-n" => .ok !a.isEmpty
    | "-z" => .ok a.isEmpty
    | "-e" | "-f" | "-r" | "-w" => .ok (m.file? a).isSome
    | "-s" => .ok ((m.file? a).any fun text => !text.isEmpty)
    | "-d" | "-x" => .ok (String.ofList a == "/" || String.ofList a == ".")
    | _ => .error (Text.ofBytes op ++ ": unexpected operator")
  | [a, op, b] =>
    match String.ofList op with
    | "=" | "==" => .ok (a == b)
    | "!=" => .ok (a != b)
    | "-eq" => compared (· == ·) a b
    | "-ne" => compared (· != ·) a b
    | "-lt" => compared (· < ·) a b
    | "-le" => compared (· ≤ ·) a b
    | "-gt" => compared (· > ·) a b
    | "-ge" => compared (· ≥ ·) a b
    | _ =>
      if a = ['!'] then (condition m [op, b]).map (!·)
      else .error (Text.ofBytes a ++ ": unexpected operator")
  | a :: rest =>
    if a = ['!'] then (condition m rest).map (!·)
    else .error (Text.ofBytes a ++ ": unexpected operator")
where
  number (a : Bytes) : Except String Int :=
    match intOf? a with
    | some n => .ok n
    | none => .error ("Illegal number: " ++ Text.ofBytes a)
  compared (p : Int → Int → Bool) (a b : Bytes) : Except String Bool := do
    return p (← number a) (← number b)

/-- The parts of a condition between words that join them. -/
def splitAtWord (word : Bytes) : List Bytes → List (List Bytes)
  | [] => [[]]
  | a :: rest =>
    match splitAtWord word rest with
    | part :: parts => if a = word then [] :: part :: parts else (a :: part) :: parts
    | [] => [[a]]

/-- Conditions joined by *and* and *or*; up to three words are never taken apart. -/
def conditions (m : Machine) (args : List Bytes) : Except String Bool :=
  if args.length ≤ 3 ∧ !(args.contains ['-', 'a'] || args.contains ['-', 'o']) then
    condition m args
  else do
    let parts ← (splitAtWord ['-', 'o'] args).mapM fun part =>
      (splitAtWord ['-', 'a'] part).mapM (condition m)
    return parts.any fun part => part.all id

/-- Whether a condition holds, asked by a tool with a name. -/
def examine (name : String) : Tool := fun args => do
  match conditions (← get) args with
  | .ok true => return 0
  | .ok false => return 1
  | .error message =>
    complain ("sh: 1: " ++ name ++ ": " ++ message)
    return 2

/-- Whether the condition before a closing bracket holds. -/
def bracket : Tool := fun args =>
  if args.getLast? = some [']'] then examine "[" args.dropLast
  else do
    complain "sh: 1: [: missing ]"
    return 2

/-! ### Names -/

/-- What the input holds goes to the output and into files. -/
def tee : Tool := fun args => do
  let text ← takeInput
  modify fun m => args.foldl (fun m path => { m with files := setIn path text m.files }) m
  write 1 text
  return 0

/-- Files are forgotten. -/
def remove : Tool := fun args => do
  modify fun m => { m with files := m.files.filter fun (path, _) => !args.contains path }
  return 0

/-- The last part of a path. -/
def basename : Tool := fun args => do
  let path := args.headD []
  write 1 (((Text.splitWhere (· == '/') path).getLast?.getD []) ++ ['\n'])
  return 0

/-- **The tool with a name.** -/
def tool? : String → Option Tool
  | ":" | "true" | "cd" | "wait" | "umask" | "mkdir" | "touch" | "sync" | "hash" => some succeed
  | "false" => some fail
  | "echo" => some echo
  | "printf" => some printf
  | "seq" => some seq
  | "cat" => some cat
  | "head" => some head
  | "tail" => some tail
  | "wc" => some wc
  | "tr" => some tr
  | "sort" => some sort
  | "uniq" => some uniq
  | "grep" => some grep
  | "read" => some readLine
  | "env" | "printenv" => some environment
  | "export" => some tellAll
  | "readonly" | "local" => some assignAll
  | "unset" => some unset
  | "set" => some setAll
  | "shift" => some shift
  | "exit" => some exit
  | "return" => some fun args => do throw (.returned (← codeOf args))
  | "break" => some fun args => throw (.broke (levelsOf args))
  | "continue" => some fun args => throw (.continued (levelsOf args))
  | "sleep" => some sleep
  | "trap" => some trap
  | "test" => some (examine "test")
  | "[" => some bracket
  | "tee" => some tee
  | "rm" => some remove
  | "basename" => some basename
  | _ => none

end Timetable.Shell
