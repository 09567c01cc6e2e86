/-
**Queries for jobs.**

Jobs are listed in one of three orders, filtered by whether they are enabled and by the words of a
search text, and never more than a bounded number of them.

Main definitions:

* `JobOrder` — the three orders, `JobOrder.parse` — reading one;
* `JobQuery` — a query, `JobQuery.effectiveLimit` — how many jobs it asks for.

Main results:

* `JobQuery.effectiveLimit_pos`, `JobQuery.effectiveLimit_le` — between one and two hundred.
-/

import Timetable.Text.Blank
import Timetable.Text.Quoted

set_option autoImplicit false
set_option relaxedAutoImplicit false

namespace Timetable

/-- The orders in which jobs are listed. -/
inductive JobOrder where
  /-- The most recently changed first. -/
  | updatedAtDesc
  /-- The most recent fire first. -/
  | lastRunAtDesc
  /-- The earliest next fire first. -/
  | nextRunAtAsc
  deriving Repr, DecidableEq

namespace JobOrder

/-- The name of an order. -/
def name : JobOrder → String
  | updatedAtDesc => "updated_at_desc"
  | lastRunAtDesc => "last_run_at_desc"
  | nextRunAtAsc => "next_run_at_asc"

/-- **Reading an order**: blanks around it and the case of its letters do not matter, and a blank
text stands for the most recently changed first.  The answer to any other text is a complaint. -/
def parse (text : String) : Except String JobOrder :=
  let word := Text.asciiLower (Text.trim text)
  if word = "" ∨ word = updatedAtDesc.name then .ok .updatedAtDesc
  else if word = lastRunAtDesc.name then .ok .lastRunAtDesc
  else if word = nextRunAtAsc.name then .ok .nextRunAtAsc
  else
    .error ("invalid order " ++ Text.quoted word ++
      " (use updated_at_desc|last_run_at_desc|next_run_at_asc)")

end JobOrder

/-- A query for jobs. -/
structure JobQuery where
  /-- Only enabled jobs, only disabled jobs, or both. -/
  enabled : Option Bool := none
  /-- Words that the name or the task must hold, each of them. -/
  text : Option String := none
  /-- The order of the answer. -/
  order : JobOrder := .updatedAtDesc
  /-- How many jobs are asked for; zero for the usual number. -/
  limit : Nat := 0
  deriving Repr, DecidableEq

namespace JobQuery

/-- The number of jobs listed when a query does not say. -/
def defaultLimit : Nat := 20

/-- The greatest number of jobs listed. -/
def maxLimit : Nat := 200

/-- **How many jobs a query asks for.** -/
def effectiveLimit (q : JobQuery) : Nat :=
  if q.limit = 0 then defaultLimit else Nat.min q.limit maxLimit

/-- The words that a query looks for. -/
def terms (q : JobQuery) : List String :=
  Text.words (q.text.getD "")

theorem effectiveLimit_pos (q : JobQuery) : 0 < q.effectiveLimit := by
  unfold effectiveLimit
  split
  · decide
  · exact Nat.lt_min.2 ⟨by omega, by decide⟩

theorem effectiveLimit_le (q : JobQuery) : q.effectiveLimit ≤ maxLimit := by
  unfold effectiveLimit
  split
  · decide
  · exact Nat.min_le_right _ _

end JobQuery

end Timetable
