/-
**The words of a settings file.**

Blanks, comments, line ends, texts between quotes, and keys.  A text is written on one line between
single quotes, where every character stands for itself, or between double quotes, where a backslash
begins an escape; three quotes instead of one let it go over several lines, of which an immediate
first line end does not count.

Main definitions:

* `Toml.skipSpaces`, `Toml.lineEnd?` — what carries no meaning;
* `Toml.quoted?` — **a text between quotes**;
* `Toml.keyPath?` — **a key**, as the names between its dots.
-/

import Timetable.Text.Decimal

set_option autoImplicit false
set_option relaxedAutoImplicit false

namespace Timetable.Toml

/-! ### Blanks and lines -/

/-- Blanks between words. -/
def isSpace (c : Char) : Bool := c == ' ' || c == '\t'

/-- A text without the blanks before its first word. -/
def skipSpaces (cs : List Char) : List Char := cs.dropWhile isSpace

/-- A character that may stand in a comment or between quotes: no control character of ASCII but
the tabulator. -/
def isPlain (c : Char) : Bool :=
  c == '\t' || (0x20 ≤ c.toNat && c.toNat != 0x7F)

/-- What follows a line end. -/
def newline? : List Char → Option (List Char)
  | '\n' :: cs => some cs
  | '\r' :: '\n' :: cs => some cs
  | _ => none

/-- What follows a comment, if there is one. -/
def skipComment : List Char → List Char
  | '#' :: cs => cs.dropWhile isPlain
  | cs => cs

/-- What follows the line whose last word has been read: blanks and a comment may stand before its
end, which may be the end of the file. -/
def lineEnd? (cs : List Char) : Option (List Char) :=
  match skipComment (skipSpaces cs) with
  | [] => some []
  | rest => newline? rest

/-- A text without the blanks and line ends before its first word. -/
def skipLines : List Char → List Char
  | [] => []
  | '\r' :: '\n' :: cs => skipLines cs
  | c :: cs => if isSpace c || c == '\n' then skipLines cs else c :: cs

theorem length_skipLines (cs : List Char) : (skipLines cs).length ≤ cs.length := by
  fun_induction skipLines cs with
  | case1 => exact Nat.le_refl _
  | case2 cs ih => simp only [List.length_cons]; omega
  | case3 c cs _ _ ih => simp only [List.length_cons]; omega
  | case4 => exact Nat.le_refl _

/-! ### Escapes -/

/-- The value of a hexadecimal digit. -/
def hexDigit? (c : Char) : Option Nat :=
  if '0' ≤ c ∧ c ≤ '9' then some (c.toNat - 48)
  else if 'a' ≤ c ∧ c ≤ 'f' then some (c.toNat - 87)
  else if 'A' ≤ c ∧ c ≤ 'F' then some (c.toNat - 55)
  else none

/-- The character with a code point in hexadecimal digits. -/
def codePoint? (digits : List Char) : Option Char := do
  let ds ← digits.mapM hexDigit?
  let n := ds.foldl (fun n d => n * 16 + d) 0
  if n.isValidChar then some (Char.ofNat n) else none

/-- The character of an escape of one letter. -/
def escaped? : Char → Option Char
  | 'b' => some (Char.ofNat 8)
  | 't' => some '\t'
  | 'n' => some '\n'
  | 'f' => some (Char.ofNat 12)
  | 'r' => some '\r'
  | '"' => some '"'
  | '\\' => some '\\'
  | _ => none

/-- What follows a backslash at the end of a line, the blanks of the next lines being skipped. -/
def joined? (cs : List Char) : Option (List Char) :=
  (newline? (skipSpaces cs)).map skipLines

theorem length_newline? {cs rest : List Char} (h : newline? cs = some rest) :
    rest.length < cs.length := by
  unfold newline? at h
  split at h
  · cases h; simp
  · cases h; simp only [List.length_cons]; omega
  · cases h

theorem length_joined? {cs rest : List Char} (h : joined? cs = some rest) :
    rest.length < cs.length := by
  obtain ⟨r, hr, rfl⟩ := Option.map_eq_some_iff.1 h
  have h₁ := length_newline? hr
  have h₂ := length_skipLines r
  have h₃ : (skipSpaces cs).length ≤ cs.length := List.Sublist.length_le (List.dropWhile_sublist _)
  omega

/-! ### Texts -/

/-- The characters of a text up to its closing double quote, and what follows it. -/
def basic? (acc : List Char) : List Char → Option (List Char × List Char)
  | [] => none
  | '"' :: cs => some (acc.reverse, cs)
  | '\\' :: 'u' :: a :: b :: c :: d :: cs =>
    match codePoint? [a, b, c, d] with
    | some e => basic? (e :: acc) cs
    | none => none
  | '\\' :: 'U' :: a :: b :: c :: d :: e :: f :: g :: h :: cs =>
    match codePoint? [a, b, c, d, e, f, g, h] with
    | some e => basic? (e :: acc) cs
    | none => none
  | '\\' :: c :: cs =>
    match escaped? c with
    | some e => basic? (e :: acc) cs
    | none => none
  | c :: cs => if isPlain c then basic? (c :: acc) cs else none
termination_by cs => cs.length

/-- The characters of a text up to its three closing double quotes, and what follows them; up to
two more quotes before these belong to the text. -/
def longBasic? (acc : List Char) (cs : List Char) : Option (List Char × List Char) :=
  match cs with
  | [] => none
  | '"' :: '"' :: '"' :: '"' :: '"' :: cs => some (('"' :: '"' :: acc).reverse, cs)
  | '"' :: '"' :: '"' :: '"' :: cs => some (('"' :: acc).reverse, cs)
  | '"' :: '"' :: '"' :: cs => some (acc.reverse, cs)
  | '\\' :: 'u' :: a :: b :: c :: d :: cs =>
    match codePoint? [a, b, c, d] with
    | some e => longBasic? (e :: acc) cs
    | none => none
  | '\\' :: 'U' :: a :: b :: c :: d :: e :: f :: g :: h :: cs =>
    match codePoint? [a, b, c, d, e, f, g, h] with
    | some e => longBasic? (e :: acc) cs
    | none => none
  | '\\' :: c :: cs =>
    match _hj : joined? (c :: cs) with
    | some rest => longBasic? acc rest
    | none =>
      match escaped? c with
      | some e => longBasic? (e :: acc) cs
      | none => none
  | '\r' :: '\n' :: cs => longBasic? ('\n' :: acc) cs
  | c :: cs => if isPlain c || c == '\n' then longBasic? (c :: acc) cs else none
termination_by cs.length
decreasing_by
  · simp only [List.length_cons]; omega
  · simp only [List.length_cons]; omega
  · have shorter := length_joined? _hj
    simp only [List.length_cons] at shorter ⊢
    omega
  · simp only [List.length_cons]; omega
  · simp only [List.length_cons]; omega
  · simp only [List.length_cons]; omega

/-- The characters of a text up to its closing single quote, and what follows it. -/
def literal? (acc : List Char) : List Char → Option (List Char × List Char)
  | [] => none
  | '\'' :: cs => some (acc.reverse, cs)
  | c :: cs => if isPlain c then literal? (c :: acc) cs else none

/-- The characters of a text up to its three closing single quotes, and what follows them; up to
two more quotes before these belong to the text. -/
def longLiteral? (acc : List Char) : List Char → Option (List Char × List Char)
  | [] => none
  | '\'' :: '\'' :: '\'' :: '\'' :: '\'' :: cs => some (('\'' :: '\'' :: acc).reverse, cs)
  | '\'' :: '\'' :: '\'' :: '\'' :: cs => some (('\'' :: acc).reverse, cs)
  | '\'' :: '\'' :: '\'' :: cs => some (acc.reverse, cs)
  | '\r' :: '\n' :: cs => longLiteral? ('\n' :: acc) cs
  | c :: cs => if isPlain c || c == '\n' then longLiteral? (c :: acc) cs else none

/-- A text without an immediate first line end. -/
def dropNewline (cs : List Char) : List Char := (newline? cs).getD cs

/-- A text between quotes on one line. -/
def shortQuoted? : List Char → Option (List Char × List Char)
  | '"' :: cs => basic? [] cs
  | '\'' :: cs => literal? [] cs
  | _ => none

/-- **A text between quotes**, and what follows it. -/
def quoted? : List Char → Option (List Char × List Char)
  | '"' :: '"' :: '"' :: cs => longBasic? [] (dropNewline cs)
  | '\'' :: '\'' :: '\'' :: cs => longLiteral? [] (dropNewline cs)
  | cs => shortQuoted? cs

/-! ### Keys -/

/-- The characters of a name without quotes. -/
def isBare (c : Char) : Bool := c.isAlphanum || c == '_' || c == '-'

/-- One name of a key, and what follows it. -/
def name? (cs : List Char) : Option (String × List Char) :=
  let bare := cs.takeWhile isBare
  if bare.isEmpty then (shortQuoted? cs).map fun (s, rest) => (String.ofList s, rest)
  else some (String.ofList bare, cs.dropWhile isBare)

/-- The most names that a key may have, and the deepest nesting of values. -/
def depthLimit : Nat := 80

/-- The names of a key in reverse order, and what follows it; at most so many names are read. -/
def names? : (most : Nat) → List String → List Char → Option (List String × List Char)
  | 0, _, _ => none
  | most + 1, acc, cs =>
    match name? (skipSpaces cs) with
    | none => none
    | some (name, rest) =>
      match skipSpaces rest with
      | '.' :: rest => names? most (name :: acc) rest
      | rest => some (name :: acc, rest)

/-- **A key**: the names before the last one, the last one, and what follows the key. -/
def keyPath? (cs : List Char) : Option (List String × String × List Char) :=
  match names? (depthLimit - 1) [] cs with
  | some (last :: before, rest) => some (before.reverse, last, rest)
  | _ => none

end Timetable.Toml
