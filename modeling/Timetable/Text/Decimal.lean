/-
**Whole numbers in text.**

How a number may be written where the program reads one: ASCII digits, possibly after a sign, with
a value inside the range of the reader.  Leading zeros are allowed; blanks, separators and other
digits are not.

Main definitions:

* `Text.digits?` — the value of a non-empty run of ASCII digits;
* `Text.unsigned?` — a number up to a bound, a leading `+` allowed;
* `Text.signed?` — a number between two bounds, a leading `+` or `-` allowed;
* `Text.int64Min`, `Text.int64Max`, `Text.uint32Max`, `Text.uint64Max` — the bounds in use;
* `Text.decimal`, `Text.natText`, `Text.intText` — a number written in full;
* `Text.fixedDigits` — the last digits of a number, padded with zeros.

Main results:

* `Text.length_fixedDigits` — a fixed number of digits is what it says;
* `Text.digits?_decimal` — a number written in full is read back.
-/

set_option autoImplicit false
set_option relaxedAutoImplicit false

namespace Timetable.Text

/-! ### Bounds -/

/-- The least 64-bit signed number. -/
def int64Min : Int := -9223372036854775808

/-- The greatest 64-bit signed number. -/
def int64Max : Int := 9223372036854775807

/-- The greatest 32-bit unsigned number. -/
def uint32Max : Nat := 4294967295

/-- The greatest 64-bit unsigned number. -/
def uint64Max : Nat := 18446744073709551615

/-! ### Reading -/

/-- The value of a run of digits, most significant first, continuing the value `acc`; nothing when
some character is not an ASCII digit. -/
def digitsFrom? (acc : Nat) : List Char → Option Nat
  | [] => some acc
  | c :: cs => if c.isDigit then digitsFrom? (acc * 10 + (c.toNat - 48)) cs else none

/-- The value of a non-empty run of ASCII digits. -/
def digits? : List Char → Option Nat
  | [] => none
  | c :: cs => digitsFrom? 0 (c :: cs)

/-- A list of characters without one leading `+`. -/
def dropPlus : List Char → List Char
  | '+' :: cs => cs
  | cs => cs

/-- **An unsigned number** of at most `max`: digits after an optional `+`. -/
def unsigned? (max : Nat) (cs : List Char) : Option Nat :=
  (digits? (dropPlus cs)).filter (· ≤ max)

/-- **A signed number** between `min` and `max`: digits after an optional `+` or `-`. -/
def signed? (min max : Int) (cs : List Char) : Option Int :=
  let value : Option Int :=
    match cs with
    | '-' :: ds => (digits? ds).map fun n => -(n : Int)
    | ds => (digits? (dropPlus ds)).map fun n => (n : Int)
  value.filter fun v => min ≤ v && v ≤ max

/-- A 64-bit signed number. -/
def int64? (s : String) : Option Int :=
  signed? int64Min int64Max s.toList

/-- A 64-bit unsigned number. -/
def uint64? (s : String) : Option Nat :=
  unsigned? uint64Max s.toList

/-! ### Writing -/

/-- **A number in decimal digits**, most significant first and without padding. -/
def decimal (n : Nat) : List Char :=
  if n < 10 then [Nat.digitChar n]
  else decimal (n / 10) ++ [Nat.digitChar (n % 10)]

theorem decimal_of_lt {n : Nat} (h : n < 10) : decimal n = [Nat.digitChar n] := by
  unfold decimal; simp [h]

theorem decimal_of_ge {n : Nat} (h : 10 ≤ n) :
    decimal n = decimal (n / 10) ++ [Nat.digitChar (n % 10)] := by
  rw [decimal]; simp [Nat.not_lt.2 h]

/-- The text of a number. -/
def natText (n : Nat) : String :=
  String.ofList (decimal n)

/-- The text of a signed number; zero and above carry no sign. -/
def intText (i : Int) : String :=
  if i < 0 then String.ofList ('-' :: decimal i.natAbs) else natText i.natAbs

/-- The last `width` decimal digits of a number, padded with zeros on the left. -/
def fixedDigits : (width : Nat) → Nat → List Char
  | 0, _ => []
  | w + 1, n => fixedDigits w (n / 10) ++ [Nat.digitChar (n % 10)]

@[simp] theorem length_fixedDigits (w n : Nat) : (fixedDigits w n).length = w := by
  induction w generalizing n with
  | zero => rfl
  | succ w ih => simp [fixedDigits, ih]

/-! ### Reading back -/

theorem digitsFrom?_append (acc : Nat) (xs ys : List Char) :
    digitsFrom? acc (xs ++ ys) = (digitsFrom? acc xs).bind fun a => digitsFrom? a ys := by
  induction xs generalizing acc with
  | nil => rfl
  | cons c cs ih =>
    simp only [List.cons_append, digitsFrom?]
    split
    · exact ih _
    · rfl

theorem digitsFrom?_digitChar (acc d : Nat) (h : d < 10) :
    digitsFrom? acc [Nat.digitChar d] = some (acc * 10 + d) := by
  have key : ∀ d : Fin 10, (Nat.digitChar d).isDigit = true ∧ (Nat.digitChar d).toNat - 48 = d := by
    decide
  obtain ⟨h₁, h₂⟩ := key ⟨d, h⟩
  simp only at h₁ h₂
  simp [digitsFrom?, h₁, h₂]

theorem digitsFrom?_decimal (n : Nat) : digitsFrom? 0 (decimal n) = some n := by
  induction n using Nat.strongRecOn with
  | _ n ih =>
    by_cases h : n < 10
    · rw [decimal_of_lt h, digitsFrom?_digitChar 0 n h]; simp
    · have h' : 10 ≤ n := Nat.le_of_not_lt h
      rw [decimal_of_ge h', digitsFrom?_append, ih (n / 10) (by omega), Option.bind_some,
        digitsFrom?_digitChar _ _ (Nat.mod_lt _ (by decide))]
      congr 1
      omega

theorem decimal_ne_nil (n : Nat) : decimal n ≠ [] := by
  rw [decimal]; split <;> simp

/-- A number written in full is read back. -/
theorem digits?_decimal (n : Nat) : digits? (decimal n) = some n := by
  cases h : decimal n with
  | nil => exact absurd h (decimal_ne_nil n)
  | cons c cs => rw [digits?, ← h, digitsFrom?_decimal]

/-- Different numbers are written differently. -/
theorem decimal_injective {m n : Nat} (h : decimal m = decimal n) : m = n :=
  Option.some.inj (by rw [← digits?_decimal m, ← digits?_decimal n, h])

end Timetable.Text
