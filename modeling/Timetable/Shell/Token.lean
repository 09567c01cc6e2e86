/-
**Tokens of a script.**

The characters of a script are grouped into words, signs and redirections.  Quotes and backslashes
take the meaning of signs away; a dollar sign begins what is to be replaced.

Main definitions:

* `Shell.Token` — tokens;
* `Shell.dollar?` — what a dollar sign stands for;
* `Shell.word?` — a word, `Shell.quotedWord?` — the inside of double quotes;
* `Shell.hereText` — the text that follows the line of a command;
* `Shell.tokens?` — **the tokens of a script**.
-/

import Timetable.Shell.Script

set_option autoImplicit false
set_option relaxedAutoImplicit false

namespace Timetable.Shell

/-! ### Tokens -/

/-- **A token.** -/
inductive Token where
  /-- A word. -/
  | word (w : Word)
  /-- The sign of a redirection, with the number before it. -/
  | redirect (descriptor : Nat) (kind : RedirectKind)
  /-- Another sign, or the end of a line. -/
  | sign (text : String)
  deriving Repr, DecidableEq

/-! ### Brackets -/

/-- What stands before a closing bracket, and what follows it.  Inner brackets are skipped, and so
are brackets between quotes or after a backslash. -/
def untilClose (opening closing : Char) (depth : Nat) (quote : Option Char) (escaped : Bool)
    (acc : Bytes) : Bytes → Option (Bytes × Bytes)
  | [] => none
  | c :: cs =>
    let go (depth : Nat) (quote : Option Char) (escaped : Bool) :=
      untilClose opening closing depth quote escaped (c :: acc) cs
    if escaped then go depth quote false
    else if c = '\\' ∧ quote ≠ some '\'' then go depth quote true
    else
      match quote with
      | some q => go depth (if c = q then none else some q) false
      | none =>
        if c = '\'' ∨ c = '"' then go depth (some c) false
        else if c = closing then
          match depth with
          | 0 => some (acc.reverse, cs)
          | depth + 1 => go depth none false
        else if c = opening then go (depth + 1) none false
        else go depth none false

/-- What stands before a backquote, and what follows it. -/
def untilBackquote (acc : Bytes) : Bytes → Option (Bytes × Bytes)
  | [] => none
  | '`' :: cs => some (acc.reverse, cs)
  | '\\' :: c :: cs =>
    if c = '`' ∨ c = '\\' ∨ c = '$' then untilBackquote (c :: acc) cs
    else untilBackquote (c :: '\\' :: acc) cs
  | c :: cs => untilBackquote (c :: acc) cs

/-! ### Dollar signs -/

/-- The characters that are names of special variables. -/
def isSpecial (c : Char) : Bool :=
  c.isDigit || c == '?' || c == '$' || c == '!' || c == '#' || c == '@' || c == '*' || c == '-'

/-- The name at the start of what stands between braces, and what follows it. -/
def splitName (cs : Bytes) : Bytes × Bytes :=
  match cs with
  | c :: rest =>
    if isNameStart c then (cs.takeWhile isNameChar, cs.dropWhile isNameChar)
    else if isSpecial c then ([c], rest)
    else ([], cs)
  | [] => ([], [])

/-- The meaning of what stands between braces. -/
def braced (quoted : Bool) (inside : Bytes) : Piece :=
  match inside with
  | '#' :: c :: rest => .length (String.ofList (c :: rest))
  | _ =>
    match splitName inside with
    | (name, []) => .variable quoted (String.ofList name)
    | (name, adjustment) => .adjusted quoted (String.ofList name) adjustment

/-- The meaning of what stands between parentheses: an expression when they are double. -/
def parenthesised (quoted : Bool) (inside : Bytes) : Piece :=
  match inside, inside.getLast? with
  | '(' :: rest, some ')' => .value rest.dropLast
  | _, _ => .output quoted inside

/-- **What a dollar sign stands for**, and what follows. -/
def dollar? (quoted : Bool) (cs : Bytes) : Option (Piece × Bytes) :=
  match cs with
  | '(' :: rest =>
    (untilClose '(' ')' 0 none false [] rest).map fun (inside, rest) =>
      (parenthesised quoted inside, rest)
  | '\x7b' :: rest =>
    (untilClose '\x7b' '\x7d' 0 none false [] rest).map fun (inside, rest) =>
      (braced quoted inside, rest)
  | _ =>
    match splitName cs with
    | ([], rest) => some (.literal quoted ['$'], rest)
    | (name, rest) => some (.variable quoted (String.ofList name), rest)

/-! ### Words -/

/-- The pieces up to a closing character, in reverse order, and what follows it; without such a
character, all of a text. -/
def quotedWord? (closing : Option Char) : (steps : Nat) → Word → Bytes → Option (Word × Bytes)
  | 0, _, _ => none
  | _ + 1, acc, [] => if closing.isNone then some (acc, []) else none
  | steps + 1, acc, c :: cs =>
    if some c = closing then some (acc, cs)
    else if c = '$' then
      match dollar? true cs with
      | some (piece, rest) => quotedWord? closing steps (piece :: acc) rest
      | none => none
    else if c = '`' then
      match untilBackquote [] cs with
      | some (script, rest) => quotedWord? closing steps (.output true script :: acc) rest
      | none => none
    else
      match c, cs with
      | '\\', d :: rest =>
        if d = '\n' then quotedWord? closing steps acc rest
        else if d = '$' ∨ d = '`' ∨ d = '\\' ∨ some d = closing then
          quotedWord? closing steps (.literal true [d] :: acc) rest
        else quotedWord? closing steps (.literal true ['\\', d] :: acc) rest
      | _, _ => quotedWord? closing steps (.literal true [c] :: acc) cs

/-- The characters that end a word. -/
def endsWord (c : Char) : Bool :=
  c == ' ' || c == '\t' || c == '\n' || c == ';' || c == '&' || c == '|' || c == '<' ||
    c == '>' || c == '(' || c == ')'

/-- The pieces of a word up to a character that ends it, in reverse order, and what follows it. -/
def word? (ends : Char → Bool) : (steps : Nat) → Word → Bytes → Option (Word × Bytes)
  | 0, _, _ => none
  | _ + 1, acc, [] => some (acc, [])
  | steps + 1, acc, c :: cs =>
    if ends c then some (acc, c :: cs)
    else if c = '\'' then
      let text := cs.takeWhile (· != '\'')
      match cs.drop text.length with
      | _ :: rest => word? ends steps (.literal true text :: acc) rest
      | [] => none
    else if c = '"' then
      match quotedWord? (some '"') steps (.literal true [] :: acc) cs with
      | some (acc, rest) => word? ends steps acc rest
      | none => none
    else if c = '$' then
      match dollar? false cs with
      | some (piece, rest) => word? ends steps (piece :: acc) rest
      | none => none
    else if c = '`' then
      match untilBackquote [] cs with
      | some (script, rest) => word? ends steps (.output false script :: acc) rest
      | none => none
    else
      match c, cs with
      | '\\', '\n' :: rest => word? ends steps acc rest
      | '\\', d :: rest => word? ends steps (.literal true [d] :: acc) rest
      | _, _ => word? ends steps (.literal false [c] :: acc) cs

/-- Neighbouring characters without quotes make one piece. -/
def joinPieces : Word → Word
  | .literal false a :: rest =>
    match joinPieces rest with
    | .literal false b :: more => .literal false (a ++ b) :: more
    | more => .literal false a :: more
  | p :: rest => p :: joinPieces rest
  | [] => []

/-- The word that all of a text stands for, blanks and signs included. -/
def innerWord? (cs : Bytes) : Option Word :=
  match word? (fun _ => false) (cs.length + 1) [] cs with
  | some (w, []) => some (joinPieces w.reverse)
  | _ => none

/-! ### Texts after a line -/

/-- The lines up to the one that ends a text, and what follows it.  On demand the tabulators at the
start of each line are dropped. -/
def linesUntil (last : Bytes) (indented : Bool) : (steps : Nat) → Bytes → Bytes × Bytes
  | 0, cs => ([], cs)
  | _ + 1, [] => ([], [])
  | steps + 1, cs =>
    let line := cs.takeWhile (· != '\n')
    let rest := cs.drop (line.length + 1)
    let line := if indented then line.dropWhile (· == '\t') else line
    if line = last then ([], rest)
    else
      let (more, rest) := linesUntil last indented steps rest
      (line ++ '\n' :: more, rest)

/-- The text after the line that the characters begin with, and the characters without it. -/
def hereText (last : Bytes) (indented : Bool) (cs : Bytes) : Bytes × Bytes :=
  let line := cs.takeWhile (· != '\n')
  let (text, rest) := linesUntil last indented (cs.length + 1) (cs.drop (line.length + 1))
  (text, line ++ '\n' :: rest)

/-- The text that a word means as the end of another text, and whether a part of it is quoted. -/
def Word.asEnd (w : Word) : Bytes × Bool :=
  (w.flatMap fun
    | .literal _ text => text
    | _ => [],
  w.any fun
    | .literal quoted _ => quoted
    | _ => false)

/-- The text of a command as a word: without quotes around its end, variables are replaced. -/
def hereWord? (quoted : Bool) (text : Bytes) : Option Word :=
  if quoted then some [.literal true text]
  else (quotedWord? none (text.length + 1) [] text).map fun (w, _) => w.reverse

/-! ### Scripts -/

/-- The sign of a redirection, and what follows it. -/
def redirect? : Bytes → Option (Nat × RedirectKind × Bytes)
  | '>' :: '>' :: cs => some (1, .append, cs)
  | '>' :: '&' :: cs => some (1, .duplicate, cs)
  | '>' :: '|' :: cs => some (1, .write, cs)
  | '>' :: cs => some (1, .write, cs)
  | '<' :: '&' :: cs => some (0, .duplicate, cs)
  | '<' :: '<' :: cs => some (0, .text, cs)
  | '<' :: cs => some (0, .read, cs)
  | _ => none

/-- Another sign, and what follows it. -/
def sign? : Bytes → Option (String × Bytes)
  | '&' :: '&' :: cs => some ("&&", cs)
  | '|' :: '|' :: cs => some ("||", cs)
  | ';' :: ';' :: cs => some (";;", cs)
  | '&' :: cs => some ("&", cs)
  | '|' :: cs => some ("|", cs)
  | ';' :: cs => some (";", cs)
  | '(' :: cs => some ("(", cs)
  | ')' :: cs => some (")", cs)
  | '\n' :: cs => some ("\n", cs)
  | _ => none

/-- **The tokens of a script**, in at most so many steps. -/
def tokens? : (steps : Nat) → Bytes → Option (List Token)
  | 0, _ => none
  | _ + 1, [] => some []
  | steps + 1, c :: cs =>
    if c = ' ' ∨ c = '\t' then tokens? steps cs
    else if c = '#' then tokens? steps (cs.dropWhile (· != '\n'))
    else
      match c, cs with
      | '\\', '\n' :: rest => tokens? steps rest
      | _, _ =>
        let digits := (c :: cs).takeWhile Char.isDigit
        match redirect? ((c :: cs).drop digits.length) with
        | some (_, .text, rest) => do
          let indented := rest.head? == some '-'
          let rest := (if indented then rest.drop 1 else rest).dropWhile (· == ' ')
          let (w, rest) ← word? endsWord (steps + 1) [] rest
          let (last, quoted) := Word.asEnd w.reverse
          let (text, rest) := hereText last indented rest
          let target ← hereWord? quoted text
          (tokens? steps rest).map ([.redirect 0 .text, .word target] ++ ·)
        | some (usual, kind, rest) =>
          let number := (String.ofList digits).toNat?.getD usual
          (tokens? steps rest).map (.redirect number kind :: ·)
        | none =>
          match sign? (c :: cs) with
          | some (text, rest) => (tokens? steps rest).map (.sign text :: ·)
          | none =>
            match word? endsWord (steps + 1) [] (c :: cs) with
            | some (w, rest) => (tokens? steps rest).map (.word (joinPieces w.reverse) :: ·)
            | none => none

end Timetable.Shell
