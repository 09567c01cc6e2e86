/-
**Settings files.**

A settings file is a sequence of lines: headers of tables, headers of lists of tables, and keys with
their values.  Lists may go over several lines and end with a comma; tables between braces may not.

Main definitions:

* `Toml.value?` — a value, and what follows it;
* `Toml.Line`, `Toml.lines?` — **the lines of a file**;
* `Toml.build?` — what the lines say together;
* `Toml.parse?` — **reading a file**.
-/

import Timetable.Toml.Scalar
import Timetable.Toml.Table

set_option autoImplicit false
set_option relaxedAutoImplicit false

namespace Timetable.Toml

/-! ### Values -/

/-- A text without the blanks, comments and line ends before its first word; at most so many lines
are skipped. -/
def skipTrivia : (lines : Nat) → List Char → List Char
  | 0, cs => cs
  | lines + 1, cs =>
    let rest := skipComment (skipSpaces cs)
    match newline? rest with
    | some rest => skipTrivia lines rest
    | none => rest

mutual

/-- **A value**, and what follows it.  The first number bounds the steps of the reading, the second
one the nesting that is left. -/
def value? : (steps depth : Nat) → List Char → Option (Setting × List Char)
  | 0, _, _ => none
  | steps + 1, depth, cs =>
    match cs with
    | '"' :: _ => (quoted? cs).map fun (s, rest) => (.text (String.ofList s), rest)
    | '\'' :: _ => (quoted? cs).map fun (s, rest) => (.text (String.ofList s), rest)
    | '[' :: rest =>
      match depth with
      | 0 => none
      | depth + 1 => items? steps depth [] rest
    | '\x7b' :: rest =>
      match depth with
      | 0 => none
      | depth + 1 =>
        match skipSpaces rest with
        | '\x7d' :: rest => some (.table [], rest)
        | rest => fields? steps depth [] rest
    | _ =>
      let (w, rest) := word cs
      (scalar? w).map fun v => (v, rest)

/-- The items of a list up to its closing bracket, and what follows it. -/
def items? : (steps depth : Nat) → List Setting → List Char → Option (Setting × List Char)
  | 0, _, _, _ => none
  | steps + 1, depth, acc, cs =>
    let cs := skipTrivia cs.length cs
    match cs with
    | ']' :: rest => some (.list acc.reverse, rest)
    | _ =>
      match value? steps depth cs with
      | none => none
      | some (v, rest) =>
        match skipTrivia rest.length rest with
        | ',' :: rest => items? steps depth (v :: acc) rest
        | ']' :: rest => some (.list (v :: acc).reverse, rest)
        | _ => none

/-- The fields of a table up to its closing brace, and what follows it. -/
def fields? : (steps depth : Nat) → Fields → List Char → Option (Setting × List Char)
  | 0, _, _, _ => none
  | steps + 1, depth, acc, cs =>
    match keyPath? cs with
    | none => none
    | some (path, name, rest) =>
      match rest with
      | '=' :: rest =>
        match value? steps depth (skipSpaces rest) with
        | none => none
        | some (v, rest) =>
          match insert? path name v acc with
          | none => none
          | some acc =>
            match skipSpaces rest with
            | ',' :: rest => fields? steps depth acc rest
            | '\x7d' :: rest => some (.table (settings acc), rest)
            | _ => none
      | _ => none

end

/-! ### Lines -/

/-- **A line of a settings file** that says something. -/
inductive Line where
  /-- The header of a table. -/
  | table (path : List String) (name : String)
  /-- The header of a list of tables. -/
  | listed (path : List String) (name : String)
  /-- A key with its value. -/
  | pair (path : List String) (name : String) (v : Setting)

/-- A line, and what follows its last word. -/
def line? (cs : List Char) : Option (Line × List Char) :=
  match cs with
  | '[' :: '[' :: rest => do
    let (path, name, rest) ← keyPath? rest
    match rest with
    | ']' :: ']' :: rest => some (.listed path name, rest)
    | _ => none
  | '[' :: rest => do
    let (path, name, rest) ← keyPath? rest
    match rest with
    | ']' :: rest => some (.table path name, rest)
    | _ => none
  | _ => do
    let (path, name, rest) ← keyPath? cs
    match rest with
    | '=' :: rest =>
      let (v, rest) ← value? (2 * rest.length + 2) (depthLimit - 1) (skipSpaces rest)
      some (.pair path name v, rest)
    | _ => none

/-- **The lines of a file**, of which there are at most so many. -/
def lines? : (most : Nat) → List Char → Option (List Line)
  | 0, _ => some []
  | most + 1, cs =>
    match skipTrivia cs.length cs with
    | [] => some []
    | rest => do
      let (l, rest) ← line? rest
      let rest ← lineEnd? rest
      return l :: (← lines? most rest)

/-! ### Files -/

/-- What the lines say together, below the header that was read last. -/
def build? : (header : List String) → Fields → List Line → Option Fields
  | _, root, [] => some root
  | header, root, l :: rest => do
    match l with
    | .table path name => build? (path ++ [name]) (← openTable? path name root) rest
    | .listed path name => build? (path ++ [name]) (← openListed? path name root) rest
    | .pair path name v => build? header (← insertBelow? header path name v root) rest

/-- A file without the mark that may stand at its start. -/
def dropMark : List Char → List Char
  | c :: cs => if c.toNat = 0xFEFF then cs else c :: cs
  | [] => []

/-- **Reading a file**: its named values. -/
def parse? (file : String) : Option (List (String × Setting)) := do
  let cs := dropMark file.toList
  let ls ← lines? (cs.length + 1) cs
  return settings (← build? [] [] ls)

end Timetable.Toml
