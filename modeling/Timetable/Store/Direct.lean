/-
**Direct writes.**

The tables can also be written by other tools, which know the columns but not the rules of the
scheduler.  Only the kinds of the columns are checked: a column holds whole numbers or text, and may
or may not be empty.  A number put into a column of text becomes its digits, and digits put into a
column of numbers become a number.

Main definitions:

* `Cell` — what a column can hold;
* `Numeral.ofText?` — what a text says to a column of numbers;
* `JobRow.setColumn`, `RunRow.setColumn` — a row with one column written;
* `Database.writeJob`, `Database.writeRun`, `Database.insertRun`, `Database.removeJob` — **the
  direct writes**.
-/

import Timetable.Store.Database

set_option autoImplicit false
set_option relaxedAutoImplicit false

namespace Timetable

/-! ### Cells -/

/-- What a column can hold. -/
inductive Cell where
  /-- Nothing. -/
  | null
  /-- A whole number. -/
  | int (n : Int)
  /-- A text. -/
  | text (s : String)
  deriving Repr, DecidableEq

/-! ### Numbers as text -/

/-- What a text says to a column of numbers. -/
inductive Numeral where
  /-- A whole number. -/
  | whole (n : Int)
  /-- Another number, or one that is too large. -/
  | other
  deriving Repr, DecidableEq

namespace Numeral

/-- Digits before a power of ten, the last digit first: zeros at the end go into the power, and
digits after the point are zeros or make the number no whole one. -/
def ofDigits (negative : Bool) : (reversed : List Char) → (power : Int) → Numeral
  | [], _ => whole 0
  | '0' :: ds, power => ofDigits negative ds (power + 1)
  | ds, power =>
    if power < 0 ∨ 18 < power then other
    else
      let n : Int := (Text.digits? ds.reverse).getD 0 * 10 ^ power.toNat
      if n < Text.int64Max then whole (if negative then -n else n) else other

/-- The power of ten at the end of a numeral. -/
def power? : List Char → Option Int
  | [] => some 0
  | c :: cs =>
    if c = 'e' ∨ c = 'E' then
      match cs with
      | '-' :: ds => (Text.digits? ds).map fun n => -(n : Int)
      | '+' :: ds => (Text.digits? ds).map Int.ofNat
      | ds => (Text.digits? ds).map Int.ofNat
    else none

/-- A numeral without sign, with a point or a power of ten. -/
def unsigned? (negative : Bool) (cs : List Char) : Option Numeral := do
  let ds := cs.takeWhile Char.isDigit
  let rest := cs.dropWhile Char.isDigit
  let (fs, rest) :=
    match rest with
    | '.' :: rest => (rest.takeWhile Char.isDigit, rest.dropWhile Char.isDigit)
    | _ => ([], rest)
  if ds.isEmpty && fs.isEmpty then none
  let power ← power? rest
  return ofDigits negative (ds ++ fs).reverse (power - fs.length)

/-- The blanks that may stand around a numeral. -/
def isBlank (c : Char) : Bool :=
  c == ' ' || (9 ≤ c.toNat && c.toNat ≤ 13)

/-- **What a text says to a column of numbers**; nothing if it is no numeral. -/
def ofText? (s : String) : Option Numeral :=
  let cs := (((s.toList.dropWhile isBlank).reverse).dropWhile isBlank).reverse
  match Text.int64? (String.ofList cs) with
  | some n => some (whole n)
  | none =>
    match cs with
    | '-' :: cs => unsigned? true cs
    | '+' :: cs => unsigned? false cs
    | cs => unsigned? false cs

end Numeral

namespace Cell

/-- A cell in a column of numbers. -/
def number? (column : String) : Cell → Except AccessError Int
  | int n => .ok n
  | text s =>
    match Numeral.ofText? s with
    | some (.whole n) => .ok n
    | some .other => .error (.constraint ("cannot store REAL value in INTEGER column " ++ column))
    | none => .error (.constraint ("cannot store TEXT value in INTEGER column " ++ column))
  | null => .error (.constraint ("NOT NULL constraint failed: " ++ column))

/-- A cell in a column of text. -/
def text? (column : String) : Cell → Except AccessError String
  | int n => .ok (Text.intText n)
  | text s => .ok s
  | null => .error (.constraint ("NOT NULL constraint failed: " ++ column))

/-- A cell in a column that may be empty. -/
def orNull {α : Type} (read : Cell → Except AccessError α) : Cell → Except AccessError (Option α)
  | null => .ok none
  | c => (read c).map some

end Cell

/-! ### Columns -/

/-- A complaint about a column that does not exist. -/
def noColumn {α : Type} (column : String) : Except AccessError α :=
  .error (.constraint ("no such column: " ++ column))

/-- **A job row with one column written.** -/
def JobRow.setColumn (r : JobRow) (column : String) (c : Cell) : Except AccessError JobRow :=
  let full := "cron_jobs." ++ column
  let number := c.number? full
  let number? := c.orNull (Cell.number? full)
  let text := c.text? full
  let text? := c.orNull (Cell.text? full)
  match column with
  | "id" => text.map fun v => { r with id := v }
  | "name" => text.map fun v => { r with name := v }
  | "enabled" => number.map fun v => { r with enabled := v }
  | "cron_expression" => text?.map fun v => { r with cronExpression := v }
  | "interval_seconds" => number?.map fun v => { r with intervalSeconds := v }
  | "task" => text.map fun v => { r with task := v }
  | "run_once" => number.map fun v => { r with runOnce := v }
  | "overlap_policy" => text.map fun v => { r with overlapPolicy := v }
  | "timeout_seconds" => number?.map fun v => { r with timeoutSeconds := v }
  | "model" => text?.map fun v => { r with model := v }
  | "notify_target" => text?.map fun v => { r with notifyTarget := v }
  | "last_run_at" => number?.map fun v => { r with lastRunAt := v }
  | "next_run_at" => number?.map fun v => { r with nextRunAt := v }
  | "created_at" => number.map fun v => { r with createdAt := v }
  | "updated_at" => number.map fun v => { r with updatedAt := v }
  | _ => noColumn column

/-- **A run row with one column written.** -/
def RunRow.setColumn (r : RunRow) (column : String) (c : Cell) : Except AccessError RunRow :=
  let full := "cron_runs." ++ column
  let number := c.number? full
  let number? := c.orNull (Cell.number? full)
  let text := c.text? full
  let text? := c.orNull (Cell.text? full)
  match column with
  | "id" => text.map fun v => { r with id := v }
  | "job_id" => text.map fun v => { r with jobId := v }
  | "job_updated_at" => number.map fun v => { r with jobUpdatedAt := v }
  | "status" => text.map fun v => { r with status := v }
  | "scheduled_for" => number.map fun v => { r with scheduledFor := v }
  | "started_at" => number?.map fun v => { r with startedAt := v }
  | "finished_at" => number?.map fun v => { r with finishedAt := v }
  | "attempt" => number.map fun v => { r with attempt := v }
  | "error" => text?.map fun v => { r with error := v }
  | "result_summary" => text?.map fun v => { r with resultSummary := v }
  | "created_at" => number.map fun v => { r with createdAt := v }
  | _ => noColumn column

/-! ### Writes -/

namespace Database

/-- The guarded column that a column of jobs is. -/
def guardOf : String → List Statement.GuardedColumn
  | "next_run_at" => [.nextRunAt]
  | "enabled" => [.enabled]
  | _ => []

/-- One column of a job is written; the answer is the number of rows. -/
def writeJob (d : Database) (id column : String) (c : Cell) : Except AccessError Nat × Database :=
  match d.store.jobRow? id with
  | none => (.ok 0, d)
  | some r =>
    if d.refuses ((guardOf column).map (⟨·, r.name⟩)) then (.error .refused, d)
    else
      match r.setColumn column c with
      | .error e => (.error e, d)
      | .ok r' =>
        if d.store.jobs.any fun other => other.id != id && other.name == r'.name then
          (.error (.constraint "UNIQUE constraint failed: cron_jobs.name"), d)
        else (.ok 1, { d with store := d.store.updateJob id fun _ => r' })

/-- One column of a run is written; the answer is the number of rows. -/
def writeRun (d : Database) (id column : String) (c : Cell) : Except AccessError Nat × Database :=
  match d.store.runRow? id with
  | none => (.ok 0, d)
  | some r =>
    let guarded := if column = "finished_at" then [.runFinish] else []
    if d.refuses (Statement.writesTo d.store r.jobId guarded) then (.error .refused, d)
    else
      match r.setColumn column c with
      | .error e => (.error e, d)
      | .ok r' => (.ok 1, { d with store := d.store.updateRuns (·.id == id) fun _ => r' })

/-- A run is added with a status of any kind; its job need not exist. -/
def insertRun (d : Database) (jobId status : String) (scheduledFor createdAt : Int) :
    Except AccessError Unit × Database :=
  if d.refuses (Statement.writesTo d.store jobId [.newRun]) then (.error .refused, d)
  else
    let row : RunRow :=
      { id := runIdOfSerial d.store.runSerial
        jobId
        jobUpdatedAt := 0
        status
        scheduledFor
        startedAt := none
        finishedAt := none
        attempt := 1
        error := none
        resultSummary := none
        createdAt }
    (.ok (),
      { d with store := { d.store.addRun row with runSerial := d.store.runSerial + 1 } })

/-- A job is removed and its runs stay; the answer is the number of rows. -/
def removeJob (d : Database) (id : String) : Nat × Database :=
  (d.store.jobs.countP (·.id == id),
    { d with store := { d.store with jobs := d.store.jobs.filter (·.id != id) } })

end Database

end Timetable
