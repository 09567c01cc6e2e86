/-
**Numbers, dates and times in a settings file.**

A whole number may have a sign, and single underscores between its digits; it has no needless zeros
in front; with `0x`, `0o` or `0b` in front it is hexadecimal, octal or binary.  Other numbers, dates
and times are recognised but no setting has a use for their value.

Main definitions:

* `Toml.integer?` — a whole number of 64 bits;
* `Toml.isFraction`, `Toml.isMoment` — other numbers, and dates and times;
* `Toml.scalar?` — **the value of a word without quotes**.
-/

import Timetable.Calendar.Date
import Timetable.Settings.Value
import Timetable.Toml.Word

set_option autoImplicit false
set_option relaxedAutoImplicit false

namespace Timetable.Toml

/-! ### Digits -/

/-- A word of digits without the underscores between them; each underscore stands between two
digits. -/
def ungrouped? (isDigit : Char → Bool) : List Char → Option (List Char)
  | [] => none
  | [c] => if isDigit c then some [c] else none
  | c :: '_' :: cs => if isDigit c then (ungrouped? isDigit cs).map (c :: ·) else none
  | c :: d :: cs => if isDigit c then (ungrouped? isDigit (d :: cs)).map (c :: ·) else none

/-- A word of decimal digits, possibly grouped. -/
def digitGroups? (cs : List Char) : Option (List Char) := ungrouped? Char.isDigit cs

/-- The digits have no needless zeros in front. -/
def isMinimal : List Char → Bool
  | '0' :: _ :: _ => false
  | _ => true

/-- The value of digits in a base. -/
def valueIn (base : Nat) (digits : List Char) : Nat :=
  digits.foldl (fun n c => n * base + (hexDigit? c).getD 0) 0

/-- A word without its sign, and whether the sign is a minus. -/
def signOf : List Char → Bool × List Char
  | '+' :: cs => (false, cs)
  | '-' :: cs => (true, cs)
  | cs => (false, cs)

/-! ### Whole numbers -/

/-- A number in a base other than ten. -/
def inBase? (base : Nat) (isDigit : Char → Bool) (cs : List Char) : Option Int := do
  let n := valueIn base (← ungrouped? isDigit cs)
  if (n : Int) ≤ Text.int64Max then some n else none

/-- **A whole number of 64 bits.** -/
def integer? : List Char → Option Int
  | '0' :: 'x' :: cs => inBase? 16 (fun c => (hexDigit? c).isSome) cs
  | '0' :: 'o' :: cs => inBase? 8 (fun c => '0' ≤ c && c ≤ '7') cs
  | '0' :: 'b' :: cs => inBase? 2 (fun c => c == '0' || c == '1') cs
  | cs => do
    let (negative, word) := signOf cs
    let digits ← digitGroups? word
    if !isMinimal digits then none
    let n : Int := valueIn 10 digits
    let n := if negative then -n else n
    if Text.int64Min ≤ n ∧ n ≤ Text.int64Max then some n else none

/-! ### Other numbers -/

/-- An exponent: digits after an optional sign. -/
def isExponent (cs : List Char) : Bool := (digitGroups? (signOf cs).2).isSome

/-- The letter that begins an exponent. -/
def isExponentLetter (c : Char) : Bool := c == 'e' || c == 'E'

/-- **A number that is not whole**: with a fraction, an exponent or both, or no number at all. -/
def isFraction (cs : List Char) : Bool :=
  let word := (signOf cs).2
  if word = ['i', 'n', 'f'] ∨ word = ['n', 'a', 'n'] then true
  else
    let mantissa := word.takeWhile fun c => !isExponentLetter c
    let exponent := word.drop mantissa.length
    let whole := mantissa.takeWhile (· != '.')
    let fraction := mantissa.drop whole.length
    let wholeFine := ((digitGroups? whole).map isMinimal).getD false
    let fractionFine :=
      match fraction with
      | [] => !exponent.isEmpty
      | _ :: digits => (digitGroups? digits).isSome
    let exponentFine :=
      match exponent with
      | [] => true
      | _ :: rest => isExponent rest
    wholeFine && fractionFine && exponentFine

/-! ### Dates and times -/

/-- A number of exactly so many digits, and what follows it. -/
def fixed? (width : Nat) (cs : List Char) : Option (Nat × List Char) :=
  let digits := cs.take width
  if digits.length = width ∧ digits.all Char.isDigit then some (valueIn 10 digits, cs.drop width)
  else none

/-- What follows a character. -/
def after? (c : Char) : List Char → Option (List Char)
  | d :: cs => if c = d then some cs else none
  | [] => none

/-- What follows a date that exists. -/
def date? (cs : List Char) : Option (List Char) := do
  let (year, cs) ← fixed? 4 cs
  let (month, cs) ← fixed? 2 (← after? '-' cs)
  let (dayOfMonth, cs) ← fixed? 2 (← after? '-' cs)
  let d : Date := { year, month, dayOfMonth }
  if d.Valid then some cs else none

/-- What follows the part of a second. -/
def subsecond? : List Char → Option (List Char)
  | '.' :: cs =>
    if (cs.takeWhile Char.isDigit).isEmpty then none else some (cs.dropWhile Char.isDigit)
  | cs => some cs

/-- What follows a time of day. -/
def time? (cs : List Char) : Option (List Char) := do
  let (hour, cs) ← fixed? 2 cs
  let (minute, cs) ← fixed? 2 (← after? ':' cs)
  let (second, cs) ← fixed? 2 (← after? ':' cs)
  if hour ≤ 23 ∧ minute ≤ 59 ∧ second ≤ 60 then subsecond? cs else none

/-- The word is a distance from universal time, or nothing. -/
def isOffset (cs : List Char) : Bool :=
  match cs with
  | [] | ['Z'] | ['z'] => true
  | sign :: rest =>
    (sign == '+' || sign == '-') &&
      (do
        let (hour, rest) ← fixed? 2 rest
        let (minute, rest) ← fixed? 2 (← after? ':' rest)
        return decide (hour ≤ 23) && decide (minute ≤ 59) && rest.isEmpty).getD false

/-- **A date, a time or both**, the latter possibly with a distance from universal time. -/
def isMoment (cs : List Char) : Bool :=
  match date? cs with
  | some [] => true
  | some (c :: rest) => (c == 'T' || c == 't' || c == ' ') && ((time? rest).map isOffset).getD false
  | none => time? cs == some []

/-! ### Words -/

/-- The characters of words without quotes. -/
def isWordChar (c : Char) : Bool :=
  c.isAlphanum || c == '_' || c == '+' || c == '-' || c == '.' || c == ':'

/-- **The value of a word without quotes.** -/
def scalar? (word : List Char) : Option Setting :=
  if word = ['t', 'r', 'u', 'e'] then some (.flag true)
  else if word = ['f', 'a', 'l', 's', 'e'] then some (.flag false)
  else
    match integer? word with
    | some n => some (.number n)
    | none =>
      if isFraction word then some .fraction
      else if isMoment word then some .moment
      else none

/-- A word without quotes, and what follows it.  A date and a time may be separated by a blank. -/
def word (cs : List Char) : List Char × List Char :=
  let first := cs.takeWhile isWordChar
  match cs.dropWhile isWordChar with
  | ' ' :: c :: rest =>
    if c.isDigit && date? first == some [] then
      (first ++ ' ' :: (c :: rest).takeWhile isWordChar, (c :: rest).dropWhile isWordChar)
    else (first, ' ' :: c :: rest)
  | rest => (first, rest)

end Timetable.Toml
