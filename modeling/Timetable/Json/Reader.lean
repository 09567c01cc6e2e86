/-
**Reading JSON.**

A value is read by descent over the characters.  Every nested value takes at least one character, so
a depth of as many levels as there are characters is never exceeded.

Main definitions:

* `Json.parse?` — **reading a value**, nothing being left over.
-/

import Timetable.Json.Basic

set_option autoImplicit false
set_option relaxedAutoImplicit false

namespace Timetable.Json

/-! ### Words -/

/-- Blanks between the tokens. -/
def isSpace (c : Char) : Bool :=
  c == ' ' || c == '\n' || c == '\r' || c == '\t'

/-- A text without the blanks before its first token. -/
def skip (cs : List Char) : List Char := cs.dropWhile isSpace

/-- What follows a word at the start of a text. -/
def after? : (word cs : List Char) → Option (List Char)
  | [], cs => some cs
  | _ :: _, [] => none
  | w :: word, c :: cs => if w = c then after? word cs else none

/-! ### Numbers -/

/-- The characters that numbers are made of. -/
def isNumberChar (c : Char) : Bool :=
  c.isDigit || c == '-' || c == '+' || c == '.' || c == 'e' || c == 'E'

/-- A run of at least one digit, and what follows it. -/
def someDigits? (cs : List Char) : Option (List Char) :=
  if (cs.takeWhile Char.isDigit).isEmpty then none else some (cs.dropWhile Char.isDigit)

/-- What follows the fraction of a number. -/
def afterFraction? : List Char → Option (List Char)
  | '.' :: cs => someDigits? cs
  | cs => some cs

/-- What follows the exponent of a number. -/
def afterExponent? : List Char → Option (List Char)
  | c :: cs =>
    if c = 'e' ∨ c = 'E' then
      match cs with
      | '+' :: ds => someDigits? ds
      | '-' :: ds => someDigits? ds
      | ds => someDigits? ds
    else some (c :: cs)
  | [] => some []

/-- What follows the whole part of a number, which has no needless zeros. -/
def afterWhole? : List Char → Option (List Char)
  | '0' :: cs => some cs
  | cs => someDigits? cs

/-- The number of a literal, which must be used up. -/
def number? (literal : List Char) : Option Json := do
  let unsigned := match literal with
    | '-' :: cs => cs
    | cs => cs
  let rest ← afterWhole? unsigned
  if rest.isEmpty then
    let n ← Text.digits? unsigned
    return int (if literal.head? = some '-' then -(n : Int) else n)
  else
    let rest ← afterFraction? rest
    let rest ← afterExponent? rest
    if rest.isEmpty then some (decimal (String.ofList literal)) else none

/-! ### Texts -/

/-- The value of a hexadecimal digit. -/
def hexDigit? (c : Char) : Option Nat :=
  if '0' ≤ c ∧ c ≤ '9' then some (c.toNat - 48)
  else if 'a' ≤ c ∧ c ≤ 'f' then some (c.toNat - 87)
  else if 'A' ≤ c ∧ c ≤ 'F' then some (c.toNat - 55)
  else none

/-- The value of four hexadecimal digits. -/
def hexFour? (a b c d : Char) : Option Nat := do
  return (← hexDigit? a) * 4096 + (← hexDigit? b) * 256 + (← hexDigit? c) * 16 + (← hexDigit? d)

/-- The character of a short escape. -/
def shortEscape? : Char → Option Char
  | '"' => some '"'
  | '\\' => some '\\'
  | '/' => some '/'
  | 'b' => some (Char.ofNat 8)
  | 'f' => some (Char.ofNat 12)
  | 'n' => some '\n'
  | 'r' => some '\r'
  | 't' => some '\t'
  | _ => none

/-- The characters of a text up to its closing quote, and what follows it.  Characters beyond the
sixteen-bit range are escaped as a pair of halves. -/
def text? (acc : List Char) : List Char → Option (List Char × List Char)
  | [] => none
  | '"' :: cs => some (acc.reverse, cs)
  | '\\' :: 'u' :: a :: b :: c :: d :: '\\' :: 'u' :: e :: f :: g :: h :: cs => do
    let high ← hexFour? a b c d
    let low ← hexFour? e f g h
    if 0xD800 ≤ high ∧ high < 0xDC00 ∧ 0xDC00 ≤ low ∧ low < 0xE000 then
      text? (Char.ofNat (0x10000 + (high - 0xD800) * 1024 + (low - 0xDC00)) :: acc) cs
    else text? (Char.ofNat high :: acc) ('\\' :: 'u' :: e :: f :: g :: h :: cs)
  | '\\' :: 'u' :: a :: b :: c :: d :: cs => do
    let n ← hexFour? a b c d
    text? (Char.ofNat n :: acc) cs
  | '\\' :: c :: cs => do
    let e ← shortEscape? c
    text? (e :: acc) cs
  | c :: cs => if c.toNat < 32 then none else text? (c :: acc) cs
termination_by cs => cs.length

/-! ### Values -/

mutual

/-- A value at the start of a text, and what follows it. -/
def value? : (depth : Nat) → List Char → Option (Json × List Char)
  | 0, _ => none
  | depth + 1, cs =>
    match skip cs with
    | '"' :: rest => (text? [] rest).map fun (s, rest) => (str (String.ofList s), rest)
    | '[' :: rest =>
      match skip rest with
      | ']' :: rest => some (arr [], rest)
      | rest => items? depth [] rest
    | '\x7b' :: rest =>
      match skip rest with
      | '\x7d' :: rest => some (obj [], rest)
      | rest => fields? depth [] rest
    | 'n' :: rest => (after? ['u', 'l', 'l'] rest).map fun rest => (null, rest)
    | 't' :: rest => (after? ['r', 'u', 'e'] rest).map fun rest => (bool true, rest)
    | 'f' :: rest => (after? ['a', 'l', 's', 'e'] rest).map fun rest => (bool false, rest)
    | rest =>
      (number? (rest.takeWhile isNumberChar)).map fun v => (v, rest.dropWhile isNumberChar)

/-- The items of a list up to its closing bracket, and what follows it. -/
def items? : (depth : Nat) → List Json → List Char → Option (Json × List Char)
  | 0, _, _ => none
  | depth + 1, acc, cs =>
    match value? depth cs with
    | none => none
    | some (v, rest) =>
      match skip rest with
      | ',' :: rest => items? depth (v :: acc) rest
      | ']' :: rest => some (arr (v :: acc).reverse, rest)
      | _ => none

/-- The fields of an object up to its closing brace, and what follows it. -/
def fields? : (depth : Nat) → List (String × Json) → List Char → Option (Json × List Char)
  | 0, _, _ => none
  | depth + 1, acc, cs =>
    match skip cs with
    | '"' :: rest =>
      match text? [] rest with
      | none => none
      | some (name, rest) =>
        match skip rest with
        | ':' :: rest =>
          match value? depth rest with
          | none => none
          | some (v, rest) =>
            match skip rest with
            | ',' :: rest => fields? depth ((String.ofList name, v) :: acc) rest
            | '\x7d' :: rest => some (obj ((String.ofList name, v) :: acc).reverse, rest)
            | _ => none
        | _ => none
    | _ => none

end

/-- **Reading a value**; nothing but blanks may be left over. -/
def parse? (s : String) : Option Json :=
  match value? (2 * s.length + 2) s.toList with
  | some (v, rest) => if (skip rest).isEmpty then some v else none
  | none => none

end Timetable.Json
