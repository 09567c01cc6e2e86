/-
**Quoted text.**

Messages show the text they complain about between double quotes.  A quote and a backslash inside
it are escaped, so is everything that would not be seen, and the rest stands as it is: the quoted
form is one line, and no two texts share one.

Main definitions:

* `Text.hexDigits` — a number in lower-case hexadecimal, without padding;
* `Text.escapeChar` — one character as it is shown inside quotes;
* `Text.quoted` — a text between double quotes.
-/

import Timetable.Text.Printable

set_option autoImplicit false
set_option relaxedAutoImplicit false

namespace Timetable.Text

/-- A number in lower-case hexadecimal digits. -/
def hexDigits (n : Nat) : List Char :=
  Nat.toDigits 16 n

/-- A character as its code point, in hexadecimal between braces. -/
def escapeCode (c : Char) : List Char :=
  ['\\', 'u', '\x7b'] ++ hexDigits c.toNat ++ ['\x7d']

/-- **One character inside quotes.** -/
def escapeChar (c : Char) : List Char :=
  if c = '\x00' then ['\\', '0']
  else if c = '\t' then ['\\', 't']
  else if c = '\r' then ['\\', 'r']
  else if c = '\n' then ['\\', 'n']
  else if c = '"' then ['\\', '"']
  else if c = '\\' then ['\\', '\\']
  else if c.toNat < 0x7f && 0x20 ≤ c.toNat then [c]
  else if isAttaching c || isHidden c then escapeCode c
  else [c]

/-- **A text between double quotes.** -/
def quoted (s : String) : String :=
  String.ofList ('"' :: s.toList.flatMap escapeChar ++ ['"'])

end Timetable.Text
