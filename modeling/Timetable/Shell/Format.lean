/-
**Formatted output.**

A format is text with escapes, which begin with a backslash, and directives, which begin with a
percent sign and take the next argument.  A format that takes arguments is used again as long as
there are arguments left.

Main definitions:

* `Shell.unescape` — the escapes of a text;
* `Shell.Directive` — what a directive asks for, `Directive.show` — what it gives;
* `Shell.formatOnce`, `Shell.format` — **formatted output**.
-/

import Timetable.Shell.Script
import Timetable.Text.Decimal

set_option autoImplicit false
set_option relaxedAutoImplicit false

namespace Timetable.Shell

/-! ### Numbers -/

/-- The digit of a character, up to hexadecimal. -/
def digitValue (c : Char) : Nat :=
  if c.isDigit then c.toNat - 48
  else if 'a' ≤ c ∧ c ≤ 'z' then c.toNat - 87
  else if 'A' ≤ c ∧ c ≤ 'Z' then c.toNat - 55
  else 99

/-- The value of the digits at the start of a text in a base, and what follows them. -/
def digitsIn (base : Nat) (cs : Bytes) : Nat × Bytes :=
  let digits := cs.takeWhile fun c => digitValue c < base
  (digits.foldl (fun n c => n * base + digitValue c) 0, cs.drop digits.length)

/-- The number that a text stands for, and whether all of it is that number.  Octal numbers begin
with a zero, hexadecimal ones with `0x`; a quote stands before a character whose number is meant. -/
def numberOf (cs : Bytes) : Int × Bool :=
  let unsigned (cs : Bytes) : Nat × Bool :=
    match cs with
    | '0' :: 'x' :: rest =>
      let (n, left) := digitsIn 16 rest
      (n, left.isEmpty)
    | '0' :: rest =>
      let (n, left) := digitsIn 8 rest
      (n, left.isEmpty)
    | _ =>
      let (n, left) := digitsIn 10 cs
      (n, left.isEmpty && !cs.isEmpty)
  match cs.dropWhile (· == ' ') with
  | '\'' :: c :: _ => (c.toNat, true)
  | '"' :: c :: _ => (c.toNat, true)
  | '-' :: rest =>
    let (n, fine) := unsigned rest
    (-(n : Int), fine)
  | '+' :: rest =>
    let (n, fine) := unsigned rest
    (n, fine)
  | rest =>
    let (n, fine) := unsigned rest
    (n, fine)

/-- A number in a base. -/
def inBase (base : Nat) (n : Nat) : Bytes := Nat.toDigits base n

/-! ### Escapes -/

/-- The meaning of an escape of one letter. -/
def letterEscape? : Char → Option Char
  | 'a' => some (Text.byte 7)
  | 'b' => some (Text.byte 8)
  | 'f' => some (Text.byte 12)
  | 'n' => some '\n'
  | 'r' => some '\r'
  | 't' => some '\t'
  | 'v' => some (Text.byte 11)
  | 'e' => some (Text.byte 27)
  | '\\' => some '\\'
  | _ => none

/-- The byte of an octal number of at most so many digits, and what follows them. -/
def octal (most : Nat) (cs : Bytes) : Char × Bytes :=
  let digits := (cs.take most).takeWhile fun c => digitValue c < 8
  (Text.byte (digitsIn 8 digits).1, cs.drop digits.length)

/-- **The escapes of a text**, where an octal number begins with a zero; and whether the text ends
early. -/
def unescape : (steps : Nat) → Bytes → Bytes × Bool
  | 0, _ => ([], false)
  | _ + 1, [] => ([], false)
  | steps + 1, '\\' :: c :: cs =>
    if c = 'c' then ([], true)
    else
      let (piece, rest) :=
        if c = '0' then
          let (b, rest) := octal 3 cs
          ([b], rest)
        else
          match letterEscape? c with
          | some d => ([d], cs)
          | none => (['\\', c], cs)
      let (more, early) := unescape steps rest
      (piece ++ more, early)
  | steps + 1, c :: cs =>
    let (more, early) := unescape steps cs
    (c :: more, early)

/-! ### Directives -/

/-- **What a directive asks for.** -/
structure Directive where
  /-- The text is filled up on the right. -/
  left : Bool := false
  /-- A number is filled up with zeros. -/
  zeros : Bool := false
  /-- A number always has a sign. -/
  plus : Bool := false
  /-- The least length. -/
  width : Nat := 0
  /-- The greatest length of a text, or the least number of digits. -/
  precision : Option Nat := none
  deriving Repr, DecidableEq

namespace Directive

/-- The flags at the start of a directive, and what follows them. -/
def flags (d : Directive) : Bytes → Directive × Bytes
  | '-' :: cs => flags { d with left := true } cs
  | '0' :: cs => flags { d with zeros := true } cs
  | '+' :: cs => flags { d with plus := true } cs
  | ' ' :: cs => flags d cs
  | '#' :: cs => flags d cs
  | cs => (d, cs)

/-- The directive after a percent sign, and what follows it. -/
def read (cs : Bytes) : Directive × Bytes :=
  let (d, cs) := flags {} cs
  let (width, cs) := digitsIn 10 cs
  match cs with
  | '.' :: cs =>
    let (precision, cs) := digitsIn 10 cs
    ({ d with width, precision := some precision }, cs)
  | _ => ({ d with width }, cs)

/-- A text filled up to its least length. -/
def fill (d : Directive) (text : Bytes) : Bytes :=
  let padding := List.replicate (d.width - text.length) ' '
  if d.left then text ++ padding else padding ++ text

/-- A text. -/
def text (d : Directive) (s : Bytes) : Bytes :=
  d.fill ((d.precision.map fun n => s.take n).getD s)

/-- The digits of a number after its sign. -/
def number (d : Directive) (sign digits : Bytes) : Bytes :=
  let least := (d.precision.getD 1) - digits.length
  let digits := List.replicate least '0' ++ digits
  if d.zeros && !d.left && d.precision.isNone then
    sign ++ List.replicate (d.width - sign.length - digits.length) '0' ++ digits
  else d.fill (sign ++ digits)

/-- The sign of a number. -/
def sign (d : Directive) (n : Int) : Bytes :=
  if n < 0 then ['-'] else if d.plus then ['+'] else []

/-- A negative number as it is written without a sign. -/
def wrapped (n : Int) : Nat := (n % 18446744073709551616).toNat

/-- **What a directive gives**, for an argument; nothing if there is no such directive. -/
def show? (d : Directive) (kind : Char) (argument : Bytes) : Option Bytes :=
  let n := (numberOf argument).1
  match kind with
  | 's' => some (d.text argument)
  | 'c' => some (d.fill (argument.take 1))
  | 'b' => some (d.text (unescape (argument.length + 1) argument).1)
  | 'd' | 'i' => some (d.number (d.sign n) (inBase 10 n.natAbs))
  | 'u' => some (d.number [] (inBase 10 (wrapped n)))
  | 'o' => some (d.number [] (inBase 8 (wrapped n)))
  | 'x' => some (d.number [] (inBase 16 (wrapped n)))
  | 'X' => some (d.number [] ((inBase 16 (wrapped n)).map Char.toUpper))
  | _ => none

/-- Why an argument does not suit a directive. -/
def misfit? (kind : Char) (argument : Bytes) : Option String :=
  match kind with
  | 's' | 'c' | 'b' => none
  | _ =>
    if argument.isEmpty || (numberOf argument).2 then none
    else if (argument.dropWhile fun c => c == '-' || c == '+').head?.any Char.isDigit then
      some "not completely converted"
    else some "expected numeric value"

end Directive

/-! ### Formats -/

/-- What has been formatted. -/
structure Formatted where
  /-- The output, last byte first. -/
  output : Bytes := []
  /-- The arguments that are left. -/
  arguments : List Bytes
  /-- An argument has been asked for. -/
  asked : Bool := false
  /-- What is wrong with arguments, the last one first. -/
  misfits : List (Bytes × String) := []
  /-- What is wrong with the format. -/
  mistake : Option (Bytes × String) := none
  deriving Repr, DecidableEq

/-- Bytes are added to the output. -/
def Formatted.add (f : Formatted) (bytes : Bytes) : Formatted :=
  { f with output := bytes.reverse ++ f.output }

/-- **A format used once.** -/
def formatOnce : (steps : Nat) → Bytes → Formatted → Formatted
  | 0, _, f => f
  | _ + 1, [], f => f
  | steps + 1, '%' :: '%' :: cs, f => formatOnce steps cs (f.add ['%'])
  | steps + 1, '%' :: cs, f =>
    match Directive.read cs with
    | (_, []) => { f with mistake := some ([], "missing format character") }
    | (d, kind :: rest) =>
      let argument := f.arguments.headD []
      match d.show? kind argument with
      | none =>
        let directive := cs.take (cs.length - rest.length)
        { f with mistake := some ('%' :: directive, "invalid directive") }
      | some bytes =>
        let f := f.add bytes
        formatOnce steps rest
          { f with
            arguments := f.arguments.tail
            asked := true
            misfits :=
              ((Directive.misfit? kind argument).map (argument, ·)).toList ++ f.misfits }
  | steps + 1, '\\' :: c :: cs, f =>
    if digitValue c < 8 then
      let (b, rest) := octal 3 (c :: cs)
      formatOnce steps rest (f.add [b])
    else
      match letterEscape? c with
      | some d => formatOnce steps cs (f.add [d])
      | none => formatOnce steps cs (f.add ['\\', c])
  | steps + 1, c :: cs, f => formatOnce steps cs (f.add [c])

/-- A format used again as long as arguments are left, at most so many times. -/
def formatAgain (pattern : Bytes) : (times : Nat) → Formatted → Formatted
  | 0, f => f
  | times + 1, f =>
    let f := formatOnce (pattern.length + 1) pattern f
    if f.asked && f.mistake.isNone && !f.arguments.isEmpty then
      formatAgain pattern times { f with asked := false }
    else f

/-- What is wrong with the arguments and with the format, in this order. -/
def Formatted.complaints (f : Formatted) : List (Bytes × String) :=
  f.misfits.reverse ++ f.mistake.toList

/-- The code that formatting ends with. -/
def Formatted.code (f : Formatted) : Nat :=
  if f.mistake.isSome then 2 else if f.misfits.isEmpty then 0 else 1

/-- **Formatted output.** -/
def format (pattern : Bytes) (arguments : List Bytes) : Formatted :=
  formatAgain pattern (arguments.length + 1) { arguments }

end Timetable.Shell
