/-
**Bytes and characters.**

What a task writes is a run of bytes, and not every run of bytes is text.  A byte is represented by
the character with its number, so a run of bytes is a list of characters below 256.  Reading it as
text puts the replacement character in the place of every longest piece that begins a character and
does not complete one.

Main definitions:

* `Text.bytesOf` — the bytes of a text;
* `Text.ofBytes` — **the text of bytes**, what is no text being replaced.
-/

set_option autoImplicit false
set_option relaxedAutoImplicit false

namespace Timetable.Text

/-- A run of bytes, as the characters with their numbers. -/
abbrev Bytes : Type := List Char

/-- The byte with a number. -/
def byte (n : Nat) : Char := Char.ofNat (n % 256)

/-- **The bytes of a text.** -/
def bytesOf (s : String) : Bytes :=
  s.toList.flatMap fun c => (String.utf8EncodeChar c).map fun b => byte b.toNat

/-- The character that takes the place of what is no text. -/
def replacement : Char := Char.ofNat 0xFFFD

/-- What a first byte says: how many bytes follow, the range of the next one, and the bits that it
contributes. -/
structure Lead where
  /-- How many bytes follow. -/
  more : Nat
  /-- The least value of the next byte. -/
  low : Nat
  /-- The greatest value of the next byte. -/
  high : Nat
  /-- The bits of the character that the first byte holds. -/
  bits : Nat
  deriving Repr, DecidableEq

/-- **The meaning of a first byte** that is not ASCII.  The ranges leave out characters with shorter
forms, the halves of pairs and what lies beyond the last character. -/
def lead? (n : Nat) : Option Lead :=
  if 0xC2 ≤ n ∧ n ≤ 0xDF then some ⟨1, 0x80, 0xBF, n - 0xC0⟩
  else if n = 0xE0 then some ⟨2, 0xA0, 0xBF, 0⟩
  else if n = 0xED then some ⟨2, 0x80, 0x9F, 0xD⟩
  else if 0xE1 ≤ n ∧ n ≤ 0xEF then some ⟨2, 0x80, 0xBF, n - 0xE0⟩
  else if n = 0xF0 then some ⟨3, 0x90, 0xBF, 0⟩
  else if 0xF1 ≤ n ∧ n ≤ 0xF3 then some ⟨3, 0x80, 0xBF, n - 0xF0⟩
  else if n = 0xF4 then some ⟨3, 0x80, 0x8F, 4⟩
  else none

/-- The number of a character, completed by so many further bytes, if these have their ranges; and
what is left, from the first byte on that does not fit. -/
def complete : (more low high bits : Nat) → Bytes → Option Nat × Bytes
  | 0, _, _, bits, cs => (some bits, cs)
  | _ + 1, _, _, _, [] => (none, [])
  | more + 1, low, high, bits, c :: cs =>
    if low ≤ c.toNat ∧ c.toNat ≤ high then
      complete more 0x80 0xBF (bits * 64 + (c.toNat - 0x80)) cs
    else (none, c :: cs)

theorem length_complete (more low high bits : Nat) (cs : Bytes) :
    (complete more low high bits cs).2.length ≤ cs.length := by
  induction more generalizing low high bits cs with
  | zero => exact Nat.le_refl _
  | succ more ih =>
    cases cs with
    | nil => exact Nat.le_refl _
    | cons c cs =>
      simp only [complete]
      split
      · exact Nat.le_succ_of_le (ih _ _ _ _)
      · exact Nat.le_refl _

/-- The characters of bytes. -/
def charsOfBytes : Bytes → List Char
  | [] => []
  | c :: cs =>
    if c.toNat < 0x80 then c :: charsOfBytes cs
    else
      match lead? c.toNat with
      | none => replacement :: charsOfBytes cs
      | some l =>
        let r := complete l.more l.low l.high l.bits cs
        (r.1.map Char.ofNat).getD replacement :: charsOfBytes r.2
termination_by cs => cs.length
decreasing_by
  · simp
  · simp
  · exact Nat.lt_succ_of_le (length_complete _ _ _ _ _)

/-- **The text of bytes.** -/
def ofBytes (cs : Bytes) : String :=
  String.ofList (charsOfBytes cs)

end Timetable.Text
