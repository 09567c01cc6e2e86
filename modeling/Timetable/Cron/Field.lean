/-
**Fields of a cron expression.**

A cron expression restricts five readings of the clock, and each restriction is written as one
word: a star for "every value", or a list of single values and steps separated by commas.  A step
`*/5` stands for every fifth value of the field's range, counted from its least value.  Ranges and
names are not part of the language.

Main definitions:

* `Cron.Field` — the five readings, with their names and ranges;
* `Cron.Values` — the values that a field admits, `Values.contains` — membership;
* `Cron.Field.read` — **the values that a word admits**;
* `Cron.FieldError` — why a word is refused, `FieldError.message` — its wording.

Main results:

* `Cron.Values.contains_all` and `Cron.Values.contains_only` — membership in the two kinds of sets.
-/

import Timetable.Text.Blank
import Timetable.Text.Decimal
import Timetable.Text.Quoted

set_option autoImplicit false
set_option relaxedAutoImplicit false

namespace Timetable.Cron

/-! ### The five fields -/

/-- The readings of the clock that an expression restricts, in the order they are written. -/
inductive Field where
  | minute
  | hour
  | dayOfMonth
  | month
  | dayOfWeek
  deriving Repr, DecidableEq

namespace Field

/-- The name of a field in messages. -/
def name : Field → String
  | minute => "minute"
  | hour => "hour"
  | dayOfMonth => "day-of-month"
  | month => "month"
  | dayOfWeek => "day-of-week"

/-- The least value of a field. -/
def min : Field → Nat
  | minute | hour | dayOfWeek => 0
  | dayOfMonth | month => 1

/-- The greatest value of a field; days of the week run from Sunday, zero, to Saturday. -/
def max : Field → Nat
  | minute => 59
  | hour => 23
  | dayOfMonth => 31
  | month => 12
  | dayOfWeek => 6

theorem min_le_max (f : Field) : f.min ≤ f.max := by cases f <;> decide

/-- All values fit in one 64-bit word. -/
theorem max_lt (f : Field) : f.max < 64 := by cases f <;> decide

end Field

/-! ### Sets of values -/

/-- The values that a field admits. -/
inductive Values where
  /-- Every value. -/
  | all
  /-- The values whose bits are set in the mask. -/
  | only (mask : Nat)
  deriving Repr, DecidableEq

namespace Values

/-- Membership in a set of values. -/
def contains : Values → Nat → Bool
  | all, _ => true
  | only mask, v => mask.testBit v

@[simp] theorem contains_all (v : Nat) : all.contains v = true := rfl

@[simp] theorem contains_only (mask v : Nat) : (only mask).contains v = mask.testBit v := rfl

end Values

/-! ### Reading a field -/

/-- Why the word of a field is refused. -/
inductive FieldError where
  /-- A step without a positive number. -/
  | badStep (part : String)
  /-- A part that is neither a star, a step nor a number. -/
  | badValue (part : String)
  /-- A number outside the range of the field. -/
  | outOfRange (value : Nat)
  /-- A word of nothing but commas. -/
  | noValues (word : String)
  deriving Repr, DecidableEq

/-- The wording of a refusal, which names the field it is about. -/
def FieldError.message (f : Field) : FieldError → String
  | badStep part => f.name ++ ": invalid step " ++ Text.quoted part
  | badValue part => f.name ++ ": invalid value " ++ Text.quoted part
  | outOfRange value =>
    f.name ++ ": value " ++ Text.natText value ++ " out of range (" ++ Text.natText f.min ++ "-" ++
      Text.natText f.max ++ ")"
  | noValues word => f.name ++ ": no values parsed from " ++ Text.quoted word

/-- The parts of a list: what stands between the commas, without blanks and without empty parts. -/
def partsOf (word : List Char) : List (List Char) :=
  ((Text.splitWhere (· == ',') word).map Text.trimChars).filter fun p => !p.isEmpty

/-- The mask of the given values. -/
def maskOf (vs : List Nat) : Nat :=
  vs.foldl (fun mask v => mask ||| 1 <<< v) 0

/-- The values of a step: every `n`-th value of the range, from its least one on. -/
def Field.stepValues (f : Field) (n : Nat) : List Nat :=
  ((List.range (f.max - f.min + 1)).filter fun k => k % n == 0).map (f.min + ·)

/-- What one part of a list admits. -/
inductive Part where
  /-- Every value. -/
  | star
  /-- The given values. -/
  | values (vs : List Nat)
  deriving Repr, DecidableEq

/-- **One part of a list**: a star, a step or a single value. -/
def Field.readPart (f : Field) (part : List Char) : Except FieldError Part :=
  match part with
  | ['*'] => .ok .star
  | '*' :: '/' :: step =>
    match Text.unsigned? Text.uint32Max step with
    | none | some 0 => .error (.badStep (String.ofList part))
    | some n => .ok (.values (f.stepValues n))
  | _ =>
    match Text.unsigned? Text.uint32Max part with
    | none => .error (.badValue (String.ofList part))
    | some n =>
      if f.min ≤ n ∧ n ≤ f.max then .ok (.values [n]) else .error (.outOfRange n)

/-- The values of the parts of a list, from left to right: the first star ends the reading, and so
does the first part that is refused. -/
def Field.readParts (f : Field) (word : String) (mask : Nat) :
    List (List Char) → Except FieldError Values
  | [] => if mask = 0 then .error (.noValues word) else .ok (.only mask)
  | part :: rest =>
    match f.readPart part with
    | .error e => .error e
    | .ok .star => .ok .all
    | .ok (.values vs) => f.readParts word (mask ||| maskOf vs) rest

/-- **The values that the word of a field admits.** -/
def Field.read (f : Field) (word : String) : Except FieldError Values :=
  if word = "*" then .ok .all else f.readParts word 0 (partsOf word.toList)

end Timetable.Cron
