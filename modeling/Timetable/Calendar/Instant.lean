/-
**Instants.**

A time is a whole number of seconds since 1970-01-01T00:00:00 in universal time.  Such a number
always has a civil reading, but only a bounded stretch of time counts as *representable*: a little
more than a quarter of a million years on both sides of year zero.

Main definitions:

* `Instant.earliest`, `Instant.latest`, `Instant.Representable` — the stretch of time in use;
* `Civil` — date, day of the week and time of day of an instant;
* `Civil.ofInstant` — the civil reading of an instant;
* `Instant.stamp` — an instant as text, `2026-02-03T09:00:00Z`.
-/

import Timetable.Calendar.Date
import Timetable.Text.Decimal

set_option autoImplicit false
set_option relaxedAutoImplicit false

namespace Timetable

namespace Instant

/-! ### The representable stretch -/

/-- Midnight at the start of 1 January of the year -262143. -/
def earliest : Int := -8334601228800

/-- The last second of 31 December of the year 262142. -/
def latest : Int := 8210266876799

/-- The instant lies in the stretch of time in use. -/
def Representable (t : Int) : Prop := earliest ≤ t ∧ t ≤ latest

instance (t : Int) : Decidable (Representable t) := inferInstanceAs (Decidable (_ ∧ _))

/-- Seconds of a minute, an hour and a day. -/
def minute : Int := 60

@[inherit_doc minute] def hour : Int := 3600

@[inherit_doc minute] def day : Int := 86400

end Instant

/-! ### Civil readings -/

/-- The civil reading of an instant. -/
structure Civil where
  /-- The date. -/
  date : Date
  /-- The day of the week, 0 for Sunday. -/
  weekday : Nat
  /-- The hour of the day, from 0 to 23. -/
  hour : Nat
  /-- The minute of the hour, from 0 to 59. -/
  minute : Nat
  /-- The second of the minute, from 0 to 59. -/
  second : Nat
  deriving Repr, DecidableEq

/-- **The civil reading of an instant.** -/
def Civil.ofInstant (t : Int) : Civil :=
  let n := t / Instant.day
  let s := (t % Instant.day).toNat
  { date := Date.ofDay n
    weekday := Date.weekday n
    hour := s / 3600
    minute := s % 3600 / 60
    second := s % 60 }

namespace Instant

/-! ### Instants as text -/

/-- The year of a stamp: four digits from 0 to 9999, otherwise a sign and at least four digits. -/
def stampYear (y : Int) : List Char :=
  if 0 ≤ y ∧ y ≤ 9999 then Text.fixedDigits 4 y.natAbs
  else
    let sign := if y < 0 then '-' else '+'
    let n := y.natAbs
    sign :: (if n ≤ 9999 then Text.fixedDigits 4 n else Text.decimal n)

/-- The characters of the stamp of a civil reading. -/
def stampChars (c : Civil) : List Char :=
  stampYear c.date.year ++ ['-'] ++ Text.fixedDigits 2 c.date.month ++ ['-'] ++
    Text.fixedDigits 2 c.date.dayOfMonth ++ ['T'] ++ Text.fixedDigits 2 c.hour ++ [':'] ++
    Text.fixedDigits 2 c.minute ++ [':'] ++ Text.fixedDigits 2 c.second ++ ['Z']

/-- **The stamp of an instant**: date and time of day in universal time to the second, or the bare
number of seconds when the instant is not representable. -/
def stamp (t : Int) : String :=
  if Representable t then String.ofList (stampChars (Civil.ofInstant t)) else Text.intText t

end Instant

end Timetable
