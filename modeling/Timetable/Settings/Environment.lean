/-
**Settings from the environment.**

A variable whose name begins with the name of the program sets the value whose path the rest of the
name spells: two underscores, or a dot, separate the names of the path, and the case of letters does
not matter.  What the variable says is read leniently.  It may be a flag, a number, a text between
quotes, a list between brackets or a table between braces; anything that cannot be read to its end
is a text as it stands.

Main definitions:

* `Lenient.value` — **the value that a text stands for**;
* `Environment.path?` — the path that the name of a variable spells;
* `Environment.settings` — what the variables say together.
-/

import Timetable.Settings.Value
import Timetable.Text.Blank
import Timetable.Toml.Word

set_option autoImplicit false
set_option relaxedAutoImplicit false

namespace Timetable

/-! ### Lenient reading -/

namespace Lenient

/-- The blanks between words: those of ASCII. -/
def isSpace (c : Char) : Bool :=
  c == ' ' || c == '\t' || c == '\n' || c == '\r' || c.toNat == 12

/-- A text without the blanks before its first word. -/
def skip (cs : List Char) : List Char := cs.dropWhile isSpace

/-- The characters that end a word without quotes. -/
def isSeparator (c : Char) : Bool :=
  c == ',' || c == '\x7b' || c == '\x7d' || c == '[' || c == ']'

/-- What follows a word at the start of a text. -/
def after? : (word cs : List Char) → Option (List Char)
  | [], cs => some cs
  | _ :: _, [] => none
  | w :: word, c :: cs => if w = c then after? word cs else none

/-- An exponent: nothing, or a letter and digits after an optional sign. -/
def isExponent : List Char → Bool
  | [] => true
  | c :: rest =>
    let digits :=
      match rest with
      | '+' :: ds => ds
      | '-' :: ds => ds
      | ds => ds
    (c == 'e' || c == 'E') && !digits.isEmpty && digits.all Char.isDigit

/-- A number with a point, on at least one side of which there is a digit. -/
def isFraction (word : List Char) : Bool :=
  let unsigned :=
    match word with
    | '+' :: cs => cs
    | '-' :: cs => cs
    | cs => cs
  let whole := unsigned.takeWhile Char.isDigit
  match unsigned.drop whole.length with
  | '.' :: rest =>
    let fraction := rest.takeWhile Char.isDigit
    !(whole.isEmpty && fraction.isEmpty) && isExponent (rest.drop fraction.length)
  | _ => false

/-- The value of a word without quotes. -/
def bare (word : List Char) : Setting :=
  if isFraction word then .fraction
  else
    match Text.unsigned? Text.uint64Max word with
    | some n => .number n
    | none =>
      match Text.signed? Text.int64Min Text.int64Max word with
      | some n => .number n
      | none => .text (String.ofList word)

/-- The name of a field, and what follows it. -/
def name? (cs : List Char) : Option (String × List Char) :=
  match cs with
  | '"' :: rest => (Toml.basic? [] rest).map fun (s, rest) => (String.ofList s, rest)
  | _ =>
    let name := cs.takeWhile Toml.isBare
    if name.isEmpty then none else some (String.ofList name, cs.dropWhile Toml.isBare)

mutual

/-- A value with the blanks around it, and what follows it; at most so many steps are taken. -/
def value? : (steps : Nat) → List Char → Option (Setting × List Char)
  | 0, _ => none
  | steps + 1, cs =>
    let cs := skip cs
    let read : Option (Setting × List Char) :=
      match after? ['t', 'r', 'u', 'e'] cs, after? ['f', 'a', 'l', 's', 'e'] cs with
      | some rest, _ => some (.flag true, rest)
      | _, some rest => some (.flag false, rest)
      | none, none =>
        match cs with
        | '\x7b' :: rest => fields? steps [] rest
        | '[' :: rest => items? steps [] rest
        | '"' :: rest =>
          (Toml.basic? [] rest).map fun (s, rest) => (.text (String.ofList s), rest)
        | '\'' :: c :: '\'' :: rest => some (.text (String.ofList [c]), rest)
        | '\'' :: _ => none
        | _ =>
          let word := cs.takeWhile (!isSeparator ·)
          some (bare (Text.trimChars word), cs.dropWhile (!isSeparator ·))
    read.map fun (v, rest) => (v, skip rest)

/-- The items of a list up to its closing bracket, and what follows it. -/
def items? : (steps : Nat) → List Setting → List Char → Option (Setting × List Char)
  | 0, _, _ => none
  | steps + 1, acc, cs =>
    match cs with
    | ']' :: rest => some (.list acc.reverse, rest)
    | _ =>
      match value? steps cs with
      | some (v, ',' :: rest) => items? steps (v :: acc) rest
      | some (v, ']' :: rest) => some (.list (v :: acc).reverse, rest)
      | _ => none

/-- The fields of a table up to its closing brace, and what follows it. -/
def fields? : (steps : Nat) → List (String × Setting) → List Char →
    Option (Setting × List Char)
  | 0, _, _ => none
  | steps + 1, acc, cs =>
    match cs with
    | '\x7d' :: rest => some (.table acc, rest)
    | _ =>
      match name? (skip cs) with
      | none => none
      | some (name, rest) =>
        match skip rest with
        | '=' :: rest =>
          match value? steps rest with
          | some (v, ',' :: rest) => fields? steps (Setting.put name v acc) rest
          | some (v, '\x7d' :: rest) => some (.table (Setting.put name v acc), rest)
          | _ => none
        | _ => none

end

/-- **The value that a text stands for.** -/
def value (text : String) : Setting :=
  match value? (2 * text.length + 2) text.toList with
  | some (v, []) => v
  | _ => .text text

end Lenient

/-! ### Variables -/

namespace Environment

/-- What the names of the variables begin with, up to the case of letters. -/
def programName : List Char := ['c', 'a', 'd', 'e', 'n', 'c', 'e', '_']

/-- The names that a spelling stands for: two underscores or a dot separate them, and an empty name
ends the path. -/
def pathOf (spelling : List Char) : List String :=
  let rec separate : List Char → List Char
    | '_' :: '_' :: cs => '.' :: separate cs
    | c :: cs => c :: separate cs
    | [] => []
  let names := Text.splitWhere (· == '.') (separate spelling)
  (names.takeWhile fun name => !name.isEmpty).map String.ofList

/-- **The path that the name of a variable spells**, if it begins with the name of the program. -/
def path? (name : String) : Option (List String) :=
  match Lenient.after? programName ((Text.trimChars name.toList).map Char.toLower) with
  | none => none
  | some spelling =>
    match pathOf spelling with
    | [] => none
    | path => some path

/-- **What the variables say together**; of two that set the same value the last one counts. -/
def settings (environment : List (String × String)) : List (String × Setting) :=
  environment.foldl
    (fun fields (name, text) =>
      match path? name with
      | none => fields
      | some path =>
        match (Lenient.value text).nested path with
        | .table more => Setting.overlayFields fields more
        | _ => fields)
    []

end Environment

end Timetable
