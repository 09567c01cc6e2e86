/-
**JSON.**

Answers of commands, bodies of requests and the values handed to tasks are JSON values.  Whole
numbers are kept as numbers; a number with a fraction or an exponent is kept as it was written.

Main definitions:

* `Json` — values;
* `Json.render` — **a value on one line**, `Json.pretty` — the same over several lines;
* `Json.parse?` — reading a value;
* `Json.field?` — looking a name up in an object;
* `Json.sorted` — a value with the names of its objects in ascending order.
-/

import Timetable.Text.Decimal

set_option autoImplicit false
set_option relaxedAutoImplicit false

namespace Timetable

/-! ### Values -/

/-- **A JSON value.** -/
inductive Json where
  /-- Nothing. -/
  | null
  /-- A truth value. -/
  | bool (b : Bool)
  /-- A whole number. -/
  | int (n : Int)
  /-- A number with a fraction or an exponent, as it is written. -/
  | decimal (literal : String)
  /-- A text. -/
  | str (s : String)
  /-- A list of values. -/
  | arr (items : List Json)
  /-- Named values. -/
  | obj (fields : List (String × Json))
  deriving Repr, Inhabited

namespace Json

/-- A natural number. -/
def nat (n : Nat) : Json := int n

/-- A text that may be absent. -/
def str? : Option String → Json
  | some s => str s
  | none => null

/-- A whole number that may be absent. -/
def int? : Option Int → Json
  | some n => int n
  | none => null

/-- The value of a name in an object; the last one counts. -/
def field? (name : String) : Json → Option Json
  | obj fields => (fields.reverse.find? (·.1 == name)).map (·.2)
  | _ => none

/-! ### Writing -/

/-- A character of a text, as it is written between quotes. -/
def escape (c : Char) : List Char :=
  if c = '"' then ['\\', '"']
  else if c = '\\' then ['\\', '\\']
  else if c = '\n' then ['\\', 'n']
  else if c = '\r' then ['\\', 'r']
  else if c = '\t' then ['\\', 't']
  else if c.toNat = 8 then ['\\', 'b']
  else if c.toNat = 12 then ['\\', 'f']
  else if c.toNat < 32 then
    ['\\', 'u', '0', '0', Nat.digitChar (c.toNat / 16), Nat.digitChar (c.toNat % 16)]
  else [c]

/-- A text between quotes. -/
def quote (s : String) : String :=
  String.ofList ('"' :: s.toList.flatMap escape ++ ['"'])

mutual

/-- **A value on one line**, without blanks. -/
def render : Json → String
  | null => "null"
  | bool true => "true"
  | bool false => "false"
  | int n => Text.intText n
  | decimal literal => literal
  | str s => quote s
  | arr items => "[" ++ renderItems items ++ "]"
  | obj fields => "\x7b" ++ renderFields fields ++ "\x7d"

/-- The items of a list, separated by commas. -/
def renderItems : List Json → String
  | [] => ""
  | [v] => render v
  | v :: w :: rest => render v ++ "," ++ renderItems (w :: rest)

/-- The fields of an object, separated by commas. -/
def renderFields : List (String × Json) → String
  | [] => ""
  | [(name, v)] => quote name ++ ":" ++ render v
  | (name, v) :: w :: rest => quote name ++ ":" ++ render v ++ "," ++ renderFields (w :: rest)

end

/-- A line break and the indentation of a depth. -/
def newline (depth : Nat) : String :=
  "\n" ++ String.ofList (List.replicate (2 * depth) ' ')

mutual

/-- A value over several lines, two blanks deeper at each level; empty lists and objects stay on
one line. -/
def prettyAt (depth : Nat) : Json → String
  | arr [] => "[]"
  | arr (v :: rest) => "[" ++ prettyItems (depth + 1) (v :: rest) ++ newline depth ++ "]"
  | obj [] => "\x7b\x7d"
  | obj (f :: rest) =>
    "\x7b" ++ prettyFields (depth + 1) (f :: rest) ++ newline depth ++ "\x7d"
  | null => render null
  | bool b => render (bool b)
  | int n => render (int n)
  | decimal literal => literal
  | str s => quote s

/-- The items of a list, each on its own line. -/
def prettyItems (depth : Nat) : List Json → String
  | [] => ""
  | [v] => newline depth ++ prettyAt depth v
  | v :: w :: rest => newline depth ++ prettyAt depth v ++ "," ++ prettyItems depth (w :: rest)

/-- The fields of an object, each on its own line. -/
def prettyFields (depth : Nat) : List (String × Json) → String
  | [] => ""
  | [(name, v)] => newline depth ++ quote name ++ ": " ++ prettyAt depth v
  | (name, v) :: w :: rest =>
    newline depth ++ quote name ++ ": " ++ prettyAt depth v ++ "," ++ prettyFields depth (w :: rest)

end

/-- A value over several lines. -/
def pretty (v : Json) : String := prettyAt 0 v

/-! ### Order of names -/

/-- A field put in its place among fields in ascending order of names; an equal name is replaced. -/
def insertField (f : String × Json) : List (String × Json) → List (String × Json)
  | [] => [f]
  | g :: rest =>
    if f.1 < g.1 then f :: g :: rest
    else if f.1 = g.1 then f :: rest
    else g :: insertField f rest

mutual

/-- A value with the names of all its objects in ascending order, the last of equal ones kept. -/
def sorted : Json → Json
  | arr items => arr (sortedItems items)
  | obj fields => obj ((sortedFields fields).foldl (fun acc f => insertField f acc) [])
  | null => null
  | bool b => bool b
  | int n => int n
  | decimal literal => decimal literal
  | str s => str s

@[inherit_doc sorted]
def sortedItems : List Json → List Json
  | [] => []
  | v :: rest => sorted v :: sortedItems rest

@[inherit_doc sorted]
def sortedFields : List (String × Json) → List (String × Json)
  | [] => []
  | (name, v) :: rest => (name, sorted v) :: sortedFields rest

end

end Json

end Timetable
