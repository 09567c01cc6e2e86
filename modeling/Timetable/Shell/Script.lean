/-
**Scripts of the shell.**

A task is a script: commands made of words, put together by the words and signs of the shell.  A
word is a sequence of pieces, and what a piece stands for is known only when its command is about to
run.

Main definitions:

* `Shell.Piece`, `Shell.Word` — words;
* `Shell.Redirect` — where the input and the outputs of a command go;
* `Shell.Command` — **commands**.
-/

import Timetable.Text.Utf8

set_option autoImplicit false
set_option relaxedAutoImplicit false

namespace Timetable.Shell

export Timetable.Text (Bytes)

/-! ### Words -/

/-- **A piece of a word.**  What stands between quotes is kept together. -/
inductive Piece where
  /-- Characters that stand for themselves. -/
  | literal (quoted : Bool) (text : Bytes)
  /-- The value of a variable. -/
  | variable (quoted : Bool) (name : String)
  /-- The value of a variable, adjusted by what follows its name between braces. -/
  | adjusted (quoted : Bool) (name : String) (adjustment : Bytes)
  /-- The length of the value of a variable. -/
  | length (name : String)
  /-- The output of a script. -/
  | output (quoted : Bool) (script : Bytes)
  /-- The value of an expression. -/
  | value (expression : Bytes)
  deriving Repr, DecidableEq

/-- A word. -/
abbrev Word : Type := List Piece

/-- The text of a word that stands for itself, without quotes. -/
def Word.plain? : Word → Option Bytes
  | [.literal false text] => some text
  | _ => none

/-! ### Redirections -/

/-- What a redirection does. -/
inductive RedirectKind where
  /-- The input comes from a file. -/
  | read
  /-- The output goes into a file. -/
  | write
  /-- The output is added to a file. -/
  | append
  /-- The output goes where another one goes. -/
  | duplicate
  /-- The input is a text. -/
  | text
  deriving Repr, DecidableEq

/-- **Where an input or an output goes.** -/
structure Redirect where
  /-- The number of the input or output. -/
  descriptor : Nat
  /-- What happens to it. -/
  kind : RedirectKind
  /-- The file, the number of another output, or the text. -/
  target : Word
  deriving Repr, DecidableEq

/-! ### Commands -/

/-- **Commands of the shell.** -/
inductive Command where
  /-- Variables are set and words are run. -/
  | simple (assignments : List (String × Word)) (words : List Word) (redirects : List Redirect)
  /-- A command whose input and outputs go elsewhere. -/
  | redirected (body : Command) (redirects : List Redirect)
  /-- One command after the other. -/
  | sequence (commands : List Command)
  /-- The second command runs if the first one succeeds. -/
  | both (first second : Command)
  /-- The second command runs if the first one fails. -/
  | either (first second : Command)
  /-- Success and failure are exchanged. -/
  | inverted (body : Command)
  /-- The output of each command is the input of the next one. -/
  | pipeline (commands : List Command)
  /-- A command whose changes to the shell are forgotten. -/
  | subshell (body : Command)
  /-- One of two commands, by whether the first one succeeds. -/
  | conditional (condition body otherwise : Command)
  /-- A command again and again, as long as another one succeeds, or until it does. -/
  | loop (untilHolds : Bool) (condition body : Command)
  /-- A command for each of some words; without words, for each argument. -/
  | forEach (name : String) (words : Option (List Word)) (body : Command)
  /-- The first command one of whose patterns describes a word. -/
  | choice (subject : Word) (clauses : List (List Word × Command))
  /-- A command gets a name. -/
  | define (name : String) (body : Command)
  deriving Repr, Inhabited

/-- A name of a variable begins with this character. -/
def isNameStart (c : Char) : Bool := c.isAlpha || c == '_'

/-- A name of a variable goes on with this character. -/
def isNameChar (c : Char) : Bool := c.isAlphanum || c == '_'

/-- The characters are the name of a variable. -/
def isName : Bytes → Bool
  | [] => false
  | c :: cs => isNameStart c && cs.all isNameChar

end Timetable.Shell
