/-
**Arithmetic of the shell.**

Expressions over whole numbers: sums and products, comparisons, and the two logical connectives.  A
variable without a number counts as zero.

Main definitions:

* `Shell.ArithmeticError` — why an expression has no value;
* `Shell.arithmetic` — **the value of an expression**.
-/

import Timetable.Shell.Format

set_option autoImplicit false
set_option relaxedAutoImplicit false

namespace Timetable.Shell

/-- **Why an expression has no value.** -/
inductive ArithmeticError where
  /-- It is not an expression. -/
  | malformed
  /-- Something is divided by zero. -/
  | divisionByZero
  deriving Repr, DecidableEq

/-- What is said about an expression without a value. -/
def ArithmeticError.message : ArithmeticError → String
  | .malformed => "expecting primary"
  | .divisionByZero => "division by zero"

/-- A part of an expression. -/
inductive Term where
  /-- A number. -/
  | number (n : Int)
  /-- A variable. -/
  | name (s : String)
  /-- A sign. -/
  | sign (s : String)
  deriving Repr, DecidableEq

/-- The signs of two characters. -/
def longSigns : List String := ["||", "&&", "==", "!=", "<=", ">="]

/-- The parts of an expression. -/
def terms? : (steps : Nat) → Bytes → Option (List Term)
  | 0, _ => none
  | _ + 1, [] => some []
  | steps + 1, c :: cs =>
    if c = ' ' ∨ c = '\t' ∨ c = '\n' then terms? steps cs
    else if c.isDigit then
      let digits := (c :: cs).takeWhile Char.isAlphanum
      match numberOf digits with
      | (n, true) => (terms? steps ((c :: cs).drop digits.length)).map (.number n :: ·)
      | _ => none
    else if isNameStart c then
      let name := (c :: cs).takeWhile isNameChar
      (terms? steps ((c :: cs).drop name.length)).map (.name (String.ofList name) :: ·)
    else
      let two := String.ofList (c :: cs.take 1)
      if longSigns.contains two then (terms? steps (cs.drop 1)).map (.sign two :: ·)
      else (terms? steps cs).map (.sign (String.ofList [c]) :: ·)

/-- The signs that bind alike, from the loosest to the tightest. -/
def bindings : List (List String) :=
  [["||"], ["&&"], ["==", "!="], ["<", "<=", ">", ">="], ["+", "-"], ["*", "/", "%"]]

/-- A truth value as a number. -/
def truth (b : Bool) : Int := if b then 1 else 0

/-- What a sign does with two numbers. -/
def combine (sign : String) (a b : Int) : Except ArithmeticError Int :=
  match sign with
  | "+" => .ok (a + b)
  | "-" => .ok (a - b)
  | "*" => .ok (a * b)
  | "/" => if b = 0 then .error .divisionByZero else .ok (a.tdiv b)
  | "%" => if b = 0 then .error .divisionByZero else .ok (a.tmod b)
  | "<" => .ok (truth (a < b))
  | "<=" => .ok (truth (a ≤ b))
  | ">" => .ok (truth (a > b))
  | ">=" => .ok (truth (a ≥ b))
  | "==" => .ok (truth (a == b))
  | "!=" => .ok (truth (a != b))
  | "&&" => .ok (truth (a != 0 && b != 0))
  | "||" => .ok (truth (a != 0 || b != 0))
  | _ => .error .malformed

mutual

/-- The value of the operands that are joined by the signs of a binding, and what follows. -/
def joined (value : String → Int) :
    (steps level : Nat) → List Term → Except ArithmeticError (Int × List Term)
  | 0, _, _ => .error .malformed
  | steps + 1, level, ts =>
    match bindings[level]? with
    | none => operand value steps ts
    | some signs => do
      let (a, rest) ← joined value steps (level + 1) ts
      joinedRest value steps level signs a rest

/-- The further operands that are joined by the signs of a binding. -/
def joinedRest (value : String → Int) :
    (steps level : Nat) → List String → Int → List Term →
      Except ArithmeticError (Int × List Term)
  | 0, _, _, _, _ => .error .malformed
  | steps + 1, level, signs, a, ts =>
    match ts with
    | .sign s :: rest =>
      if signs.contains s then do
        let (b, rest) ← joined value steps (level + 1) rest
        joinedRest value steps level signs (← combine s a b) rest
      else .ok (a, ts)
    | _ => .ok (a, ts)

/-- The value of an operand, and what follows it. -/
def operand (value : String → Int) :
    (steps : Nat) → List Term → Except ArithmeticError (Int × List Term)
  | 0, _ => .error .malformed
  | steps + 1, ts =>
    match ts with
    | .number n :: rest => .ok (n, rest)
    | .name s :: rest => .ok (value s, rest)
    | .sign "-" :: rest => (operand value steps rest).map fun (n, rest) => (-n, rest)
    | .sign "+" :: rest => operand value steps rest
    | .sign "!" :: rest =>
      (operand value steps rest).map fun (n, rest) => (truth (n == 0), rest)
    | .sign "(" :: rest =>
      match joined value steps 0 rest with
      | .ok (n, .sign ")" :: rest) => .ok (n, rest)
      | .ok _ => .error .malformed
      | .error e => .error e
    | _ => .error .malformed

end

/-- **The value of an expression**, given the values of variables. -/
def arithmetic (value : String → Int) (cs : Bytes) : Except ArithmeticError Int :=
  match terms? (cs.length + 1) cs with
  | none => .error .malformed
  | some [] => .ok 0
  | some ts =>
    match joined value (16 * ts.length + 16) 0 ts with
    | .ok (n, []) => .ok n
    | .ok _ => .error .malformed
    | .error e => .error e

end Timetable.Shell
