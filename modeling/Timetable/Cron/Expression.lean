/-
**Cron expressions.**

An expression is five words: minute, hour, day of the month, month and day of the week.  Blanks
around and between the words carry no meaning, so an expression is shown with single spaces between
its words.  When both day fields are restricted, it is enough that one of them admits the day; a
field counts as restricted unless it is a bare star.

Main definitions:

* `Cron.Expression` — an expression that has been read;
* `Cron.Expression.parse` — **reading an expression**;
* `Cron.ParseError` — why a text is no expression, `ParseError.message` — its wording;
* `Cron.Expression.admitsDay`, `Cron.Expression.admits` — **what an expression admits**;
* `Cron.Expression.matchesAt` — the same, of an instant.

Main results:

* `Cron.Expression.source_parse` — an expression is shown as its words.
-/

import Timetable.Calendar.Instant
import Timetable.Cron.Field

set_option autoImplicit false
set_option relaxedAutoImplicit false

namespace Timetable.Cron

/-! ### Expressions -/

/-- A cron expression that has been read. -/
structure Expression where
  /-- The five words, separated by single spaces. -/
  source : String
  /-- The minutes admitted. -/
  minute : Values
  /-- The hours admitted. -/
  hour : Values
  /-- The days of the month admitted. -/
  dayOfMonth : Values
  /-- The months admitted. -/
  month : Values
  /-- The days of the week admitted. -/
  dayOfWeek : Values
  /-- The day of the month is not a bare star. -/
  dayOfMonthRestricted : Bool
  /-- The day of the week is not a bare star. -/
  dayOfWeekRestricted : Bool
  deriving Repr, DecidableEq

/-- Why a text is no cron expression. -/
inductive ParseError where
  /-- The text has another number of words than five. -/
  | wordCount (count : Nat) (text : String)
  /-- The word of a field is refused. -/
  | field (f : Field) (e : FieldError)
  deriving Repr, DecidableEq

/-- The wording of a refusal. -/
def ParseError.message : ParseError → String
  | wordCount count text =>
    "expected 5 fields (MIN HOUR DOM MON DOW), got " ++ Text.natText count ++ ": " ++
      Text.quoted text
  | field f e => e.message f

namespace Expression

/-- The word of one field, with its refusal attributed to the field. -/
def readField (f : Field) (word : String) : Except ParseError Values :=
  (f.read word).mapError (ParseError.field f)

/-- **Reading an expression.**  The words are read from left to right, and the first refusal is
the answer. -/
def parse (text : String) : Except ParseError Expression :=
  match Text.words text with
  | [mi, ho, dm, mo, dw] => do
    let minute ← readField .minute mi
    let hour ← readField .hour ho
    let dayOfMonth ← readField .dayOfMonth dm
    let month ← readField .month mo
    let dayOfWeek ← readField .dayOfWeek dw
    return {
      source := Text.unwords [mi, ho, dm, mo, dw]
      minute, hour, dayOfMonth, month, dayOfWeek
      dayOfMonthRestricted := dm != "*"
      dayOfWeekRestricted := dw != "*" }
  | words => .error (.wordCount words.length text)

/-! ### What an expression admits -/

/-- The day is admitted by the two day fields: by either of them when both are restricted, by the
restricted one when only one is, and always when neither is. -/
def admitsDay (e : Expression) (dayOfMonth weekday : Nat) : Bool :=
  match e.dayOfMonthRestricted, e.dayOfWeekRestricted with
  | true, true => e.dayOfMonth.contains dayOfMonth || e.dayOfWeek.contains weekday
  | true, false => e.dayOfMonth.contains dayOfMonth
  | false, true => e.dayOfWeek.contains weekday
  | false, false => true

/-- **A civil reading is admitted** when every field admits its part of it. -/
def admits (e : Expression) (c : Civil) : Bool :=
  e.month.contains c.date.month && e.admitsDay c.date.dayOfMonth c.weekday &&
    e.hour.contains c.hour && e.minute.contains c.minute

/-- The minute of an instant is admitted. -/
def matchesAt (e : Expression) (t : Int) : Bool :=
  e.admits (Civil.ofInstant t)

/-- An expression fires at the whole minutes that it admits. -/
def Fires (e : Expression) (t : Int) : Prop :=
  t % Instant.minute = 0 ∧ e.matchesAt t = true

instance (e : Expression) (t : Int) : Decidable (e.Fires t) :=
  inferInstanceAs (Decidable (_ ∧ _))

/-! ### Facts -/

/-- An expression is shown as its words, separated by single spaces. -/
theorem source_parse {text : String} {e : Expression} (h : parse text = .ok e) :
    e.source = Text.unwords (Text.words text) := by
  unfold parse at h
  split at h
  · rename_i mi ho dm mo dw hw
    simp only [bind, Except.bind] at h
    repeat' split at h
    all_goals cases h
    rw [hw]
  · cases h

end Expression

end Timetable.Cron
