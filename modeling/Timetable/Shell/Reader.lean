/-
**Reading scripts.**

The tokens of a script are put together to commands: and-or lists of pipelines, separated by
semicolons and line ends, and the commands that begin and end with words of their own.

Main definitions:

* `Shell.Command.ofTokens?` — the command of tokens;
* `Shell.ScriptError`, `Shell.parse` — **the command of a script**.
-/

import Timetable.Shell.Token

set_option autoImplicit false
set_option relaxedAutoImplicit false

namespace Timetable.Shell

/-! ### Words with a meaning of their own -/

/-- The words that end a part of a command. -/
def closers : List String :=
  ["then", "else", "elif", "fi", "do", "done", "esac", "\x7d"]

/-- The words that begin a command. -/
def openers : List String :=
  ["if", "while", "until", "for", "case", "\x7b", "!"]

/-- The word of a token that stands for itself. -/
def plainWord? : Token → Option String
  | .word w => w.plain?.map String.ofList
  | _ => none

/-- A list of commands ends before this token. -/
def endsList (t : Token) : Bool :=
  match t with
  | .sign text => text == ")" || text == ";;"
  | _ => (plainWord? t).any closers.contains

/-- What follows a word. -/
def expect? (text : String) : List Token → Option (List Token)
  | t :: rest => if plainWord? t = some text then some rest else none
  | [] => none

/-- What follows a sign. -/
def expectSign? (text : String) : List Token → Option (List Token)
  | .sign s :: rest => if s = text then some rest else none
  | _ => none

/-- What follows the ends of lines. -/
def skipNewlines (ts : List Token) : List Token :=
  ts.dropWhile (· == .sign "\n")

/-! ### Parts of commands -/

/-- The variable and the value of a word such as `name=value`. -/
def assignment? (w : Word) : Option (String × Word) :=
  match w with
  | .literal false text :: rest =>
    let name := text.takeWhile (· != '=')
    match text.drop name.length with
    | _ :: value =>
      if isName name then
        some (String.ofList name, if value.isEmpty then rest else .literal false value :: rest)
      else none
    | [] => none
  | _ => none

/-- The redirections at the start of tokens, and what follows them. -/
def redirects : List Token → List Redirect × List Token
  | .redirect descriptor kind :: .word target :: rest =>
    let (more, rest) := redirects rest
    (⟨descriptor, kind, target⟩ :: more, rest)
  | ts => ([], ts)

/-- The rest of a simple command. -/
def simpleRest (assignments : List (String × Word)) (words : List Word) (rs : List Redirect) :
    List Token → Command × List Token
  | .word w :: rest =>
    match words, assignment? w with
    | [], some a => simpleRest (assignments ++ [a]) [] rs rest
    | _, _ => simpleRest assignments (words ++ [w]) rs rest
  | .redirect descriptor kind :: .word target :: rest =>
    simpleRest assignments words (rs ++ [⟨descriptor, kind, target⟩]) rest
  | ts => (.simple assignments words rs, ts)

/-- The words of a `for` command, and what follows them. -/
def forWords : List Token → List Word × List Token
  | .word w :: rest =>
    let (more, rest) := forWords rest
    (w :: more, rest)
  | ts => ([], ts)

/-- The patterns of a clause, and what follows their closing parenthesis. -/
def patterns? : List Token → Option (List Word × List Token)
  | .word w :: .sign "|" :: rest =>
    (patterns? rest).map fun (more, rest) => (w :: more, rest)
  | .word w :: .sign ")" :: rest => some ([w], rest)
  | _ => none

/-- One command, or several in sequence. -/
def Command.ofList : List Command → Command
  | [c] => c
  | cs => .sequence cs

/-! ### Commands -/

mutual

/-- Commands in sequence, in reverse order, and what follows them. -/
def list? : (steps : Nat) → List Command → List Token → Option (Command × List Token)
  | 0, _, _ => none
  | steps + 1, acc, ts =>
    match skipNewlines ts with
    | [] => some (.ofList acc.reverse, [])
    | t :: rest =>
      if endsList t then some (.ofList acc.reverse, t :: rest)
      else
        match andOr? steps (t :: rest) with
        | none => none
        | some (c, .sign s :: rest) =>
          if s = ";" ∨ s = "&" ∨ s = "\n" then list? steps (c :: acc) rest
          else if s = ")" ∨ s = ";;" then some (.ofList (c :: acc).reverse, .sign s :: rest)
          else none
        | some (c, rest) => some (.ofList (c :: acc).reverse, rest)

/-- Pipelines joined by the signs for success and failure. -/
def andOr? : (steps : Nat) → List Token → Option (Command × List Token)
  | 0, _ => none
  | steps + 1, ts =>
    match pipeline? steps ts with
    | none => none
    | some (c, rest) => andOrRest? steps c rest

/-- The rest of joined pipelines. -/
def andOrRest? : (steps : Nat) → Command → List Token → Option (Command × List Token)
  | 0, _, _ => none
  | steps + 1, c, ts =>
    match ts with
    | .sign "&&" :: rest =>
      match pipeline? steps (skipNewlines rest) with
      | some (d, rest) => andOrRest? steps (.both c d) rest
      | none => none
    | .sign "||" :: rest =>
      match pipeline? steps (skipNewlines rest) with
      | some (d, rest) => andOrRest? steps (.either c d) rest
      | none => none
    | _ => some (c, ts)

/-- A pipeline, possibly inverted. -/
def pipeline? : (steps : Nat) → List Token → Option (Command × List Token)
  | 0, _ => none
  | steps + 1, ts =>
    match expect? "!" ts with
    | some rest => (pipeline? steps rest).map fun (c, rest) => (.inverted c, rest)
    | none => pipes? steps [] ts

/-- The commands of a pipeline, in reverse order. -/
def pipes? : (steps : Nat) → List Command → List Token → Option (Command × List Token)
  | 0, _, _ => none
  | steps + 1, acc, ts =>
    match command? steps ts with
    | none => none
    | some (c, .sign "|" :: rest) => pipes? steps (c :: acc) (skipNewlines rest)
    | some (c, rest) =>
      some (if acc.isEmpty then c else .pipeline (c :: acc).reverse, rest)

/-- A command with the redirections after it. -/
def command? : (steps : Nat) → List Token → Option (Command × List Token)
  | 0, _ => none
  | steps + 1, ts =>
    match compound? steps ts with
    | some (c, rest) =>
      match redirects rest with
      | ([], rest) => some (c, rest)
      | (rs, rest) => some (.redirected c rs, rest)
    | none =>
      match ts with
      | .word w :: .sign "(" :: .sign ")" :: rest =>
        match w.plain?, command? steps (skipNewlines rest) with
        | some name, some (body, rest) => some (.define (String.ofList name) body, rest)
        | _, _ => none
      | .word w :: _ =>
        if (w.plain?.map String.ofList).any (openers ++ closers).contains then none
        else some (simpleRest [] [] [] ts)
      | .redirect _ _ :: .word _ :: _ => some (simpleRest [] [] [] ts)
      | _ => none

/-- A command that begins with a word or sign of its own. -/
def compound? : (steps : Nat) → List Token → Option (Command × List Token)
  | 0, _ => none
  | steps + 1, ts =>
    match ts with
    | .sign "(" :: rest => do
      let (body, rest) ← list? steps [] rest
      return (.subshell body, ← expectSign? ")" rest)
    | t :: rest =>
      match plainWord? t with
      | some "\x7b" => do
        let (body, rest) ← list? steps [] rest
        return (body, ← expect? "\x7d" rest)
      | some "if" => conditional? steps rest
      | some "while" => loop? steps false rest
      | some "until" => loop? steps true rest
      | some "for" => forEach? steps rest
      | some "case" => choice? steps rest
      | _ => none
    | [] => none

/-- The rest of a conditional command, after `if` or `elif`. -/
def conditional? : (steps : Nat) → List Token → Option (Command × List Token)
  | 0, _ => none
  | steps + 1, ts => do
    let (condition, rest) ← list? steps [] ts
    let (body, rest) ← list? steps [] (← expect? "then" rest)
    match expect? "elif" rest with
    | some rest =>
      let (otherwise, rest) ← conditional? steps rest
      some (.conditional condition body otherwise, rest)
    | none =>
      match expect? "else" rest with
      | some rest =>
        let (otherwise, rest) ← list? steps [] rest
        return (.conditional condition body otherwise, ← expect? "fi" rest)
      | none => return (.conditional condition body (.sequence []), ← expect? "fi" rest)

/-- The rest of a loop. -/
def loop? : (steps : Nat) → Bool → List Token → Option (Command × List Token)
  | 0, _, _ => none
  | steps + 1, untilHolds, ts => do
    let (condition, rest) ← list? steps [] ts
    let (body, rest) ← list? steps [] (← expect? "do" rest)
    return (.loop untilHolds condition body, ← expect? "done" rest)

/-- The rest of a command for each of some words. -/
def forEach? : (steps : Nat) → List Token → Option (Command × List Token)
  | 0, _ => none
  | steps + 1, ts =>
    match ts with
    | t :: rest => do
      let name ← plainWord? t
      let (words, rest) :=
        match expect? "in" (skipNewlines rest) with
        | some rest =>
          let (words, rest) := forWords rest
          (some words, rest)
        | none => (none, rest)
      let rest := rest.dropWhile fun t => t == .sign ";" || t == .sign "\n"
      let (body, rest) ← list? steps [] (← expect? "do" rest)
      return (.forEach name words body, ← expect? "done" rest)
    | [] => none

/-- The rest of a choice. -/
def choice? : (steps : Nat) → List Token → Option (Command × List Token)
  | 0, _ => none
  | steps + 1, ts =>
    match ts with
    | .word subject :: rest => do
      let rest ← expect? "in" (skipNewlines rest)
      clauses? steps subject [] rest
    | _ => none

/-- The clauses of a choice, in reverse order. -/
def clauses? : (steps : Nat) → Word → List (List Word × Command) → List Token →
    Option (Command × List Token)
  | 0, _, _, _ => none
  | steps + 1, subject, acc, ts =>
    let ts := skipNewlines ts
    match expect? "esac" ts with
    | some rest => some (.choice subject acc.reverse, rest)
    | none => do
      let (ps, rest) ← patterns? ((expectSign? "(" ts).getD ts)
      let (body, rest) ← list? steps [] rest
      let clause := (ps, body)
      match expectSign? ";;" rest with
      | some rest => clauses? steps subject (clause :: acc) rest
      | none => return (.choice subject (clause :: acc).reverse, ← expect? "esac" rest)

end

/-- The command of tokens, of which none is left over. -/
def Command.ofTokens? (ts : List Token) : Option Command :=
  match list? (16 * ts.length + 16) [] ts with
  | some (c, []) => some c
  | _ => none

/-- **Why a text is not a script.** -/
inductive ScriptError where
  /-- A quote or a bracket has no end. -/
  | unterminated
  /-- The tokens do not make a command. -/
  | malformed
  deriving Repr, DecidableEq

/-- What is said about a text that is not a script. -/
def ScriptError.message : ScriptError → String
  | .unterminated => "Syntax error: Unterminated quoted string"
  | .malformed => "Syntax error"

/-- **The command of a script.** -/
def parse (script : Bytes) : Except ScriptError Command :=
  match tokens? (script.length + 1) script with
  | none => .error .unterminated
  | some ts =>
    match Command.ofTokens? ts with
    | none => .error .malformed
    | some c => .ok c

end Timetable.Shell
