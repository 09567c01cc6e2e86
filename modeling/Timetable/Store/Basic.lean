/-
**The store.**

The store holds the two tables, each in the order in which its rows were added, and numbers that
give fresh identifiers.  What is asked of it and what is done to it are functions on that value;
each of them stands for one indivisible access.

Main definitions:

* `Store` — the tables, `Store.empty` — without rows;
* `Store.jobWithId?`, `Store.jobNamed?`, `Store.listJobs`, `Store.enabledJobs`,
  `Store.jobsWithoutNextRun`, `Store.dueJobIds` — what is asked of the jobs;
* `Store.runWithId?`, `Store.listRuns`, `Store.oldestQueued?` — what is asked of the runs;
* `Store.saveJob`, `Store.disableJob`, `Store.deleteJob`, `Store.setNextRun`,
  `Store.disableInvalid` — what is done to jobs;
* `Store.claim`, `Store.finish`, `Store.failRunning`, `Store.addRun` — what is done to runs.
-/

import Timetable.Job.Query
import Timetable.Store.Row
import Timetable.Text.Pattern

set_option autoImplicit false
set_option relaxedAutoImplicit false

namespace Timetable

/-! ### The tables -/

/-- **The store**: the rows of both tables in the order they were added, and the numbers of the next
identifiers. -/
structure Store where
  /-- The table of jobs. -/
  jobs : List JobRow := []
  /-- The table of runs. -/
  runs : List RunRow := []
  /-- The number of the next job. -/
  jobSerial : Nat := 0
  /-- The number of the next run. -/
  runSerial : Nat := 0
  deriving Repr, DecidableEq

/-- The identifier of the job with a number. -/
def jobIdOfSerial (n : Nat) : String :=
  "job:" ++ Text.natText n

/-- The identifier of the run with a number. -/
def runIdOfSerial (n : Nat) : String :=
  "run:" ++ Text.natText n

namespace Store

/-- The store without rows. -/
def empty : Store := {}

/-! ### Rows of jobs -/

/-- The row of a job, by its identifier. -/
def jobRow? (s : Store) (id : String) : Option JobRow :=
  s.jobs.find? (·.id == id)

/-- The row of a job, by its name. -/
def jobRowNamed? (s : Store) (name : String) : Option JobRow :=
  s.jobs.find? (·.name == name)

/-- The job with an identifier. -/
def jobWithId? (s : Store) (id : String) : Option Job :=
  (s.jobRow? id).map JobRow.decode

/-- The job with a name. -/
def jobNamed? (s : Store) (name : String) : Option Job :=
  (s.jobRowNamed? name).map JobRow.decode

/-- The rows with an identifier are changed. -/
def updateJob (s : Store) (id : String) (f : JobRow → JobRow) : Store :=
  { s with jobs := s.jobs.map fun r => if r.id == id then f r else r }

/-! ### Listing jobs -/

/-- Times in descending order. -/
def newestFirst (a b : Int) : Ordering := compare b a

/-- Optional times in an order, absent ones last. -/
def absentLast (order : Int → Int → Ordering) : Option Int → Option Int → Ordering
  | some a, some b => order a b
  | some _, none => .lt
  | none, some _ => .gt
  | none, none => .eq

/-- The comparison that an order of jobs stands for. -/
def compareJobs (order : JobOrder) (a b : JobRow) : Ordering :=
  match order with
  | .updatedAtDesc => newestFirst a.updatedAt b.updatedAt
  | .lastRunAtDesc =>
    (absentLast newestFirst a.lastRunAt b.lastRunAt).then (newestFirst a.updatedAt b.updatedAt)
  | .nextRunAtAsc =>
    (absentLast compare a.nextRunAt b.nextRunAt).then (newestFirst a.updatedAt b.updatedAt)

/-- A job row passes the filters of a query. -/
def selects (q : JobQuery) (r : JobRow) : Bool :=
  q.enabled.all (fun wanted => r.enabled == flagNumber wanted) &&
    q.terms.all fun term => Text.contains term r.name || Text.contains term r.task

/-- **The jobs that a query asks for**: those that pass its filters, in its order, up to its
limit. -/
def listJobs (s : Store) (q : JobQuery) : List Job :=
  let selected := s.jobs.filter (selects q)
  let ordered := selected.mergeSort fun a b => (compareJobs q.order a b).isLE
  (ordered.take q.effectiveLimit).map JobRow.decode

/-- The enabled jobs, by their next fire; those without one come first. -/
def enabledJobs (s : Store) : List Job :=
  let rows := s.jobs.filter (·.enabled == 1)
  let byNextFire (a b : JobRow) : Bool :=
    match a.nextRunAt, b.nextRunAt with
    | none, _ => true
    | some _, none => false
    | some x, some y => x ≤ y
  (rows.mergeSort byNextFire).map JobRow.decode

/-- The enabled jobs whose next fire has yet to be computed. -/
def jobsWithoutNextRun (s : Store) : List Job :=
  (s.jobs.filter fun r => r.enabled == 1 && r.nextRunAt.isNone).map JobRow.decode

/-- The enabled rows whose next fire has come. -/
def dueRows (s : Store) (now : Int) : List JobRow :=
  s.jobs.filter fun r => r.enabled == 1 && r.nextRunAt.any (· ≤ now)

/-- **The identifiers of the jobs that are due**, the earliest fire first. -/
def dueJobIds (s : Store) (now : Int) : List String :=
  let rows := (s.dueRows now).mergeSort fun a b => a.nextRunAt.getD 0 ≤ b.nextRunAt.getD 0
  rows.map (·.id)

/-! ### Changing jobs -/

/-- **Saving a job**: the definition of the job with that name is replaced, or a job is added. -/
def saveJob (s : Store) (spec : JobSpec) (now : Int) : Store :=
  if s.jobs.any (·.name == spec.name) then
    { s with jobs := s.jobs.map fun r => if r.name == spec.name then r.redefine spec now else r }
  else
    { s with
      jobs := s.jobs ++ [JobRow.ofSpec (jobIdOfSerial s.jobSerial) spec now]
      jobSerial := s.jobSerial + 1 }

/-- A job no longer fires, and its next fire is forgotten. -/
def disableJob (s : Store) (id : String) (now : Int) : Store :=
  s.updateJob id fun r => ({ r with enabled := 0, nextRunAt := none } : JobRow).touch now

/-- A job goes, and its runs go with it. -/
def deleteJob (s : Store) (id : String) : Store :=
  { s with
    jobs := s.jobs.filter (·.id != id)
    runs := if s.jobs.any (·.id == id) then s.runs.filter (·.jobId != id) else s.runs }

/-- The next fire of a job is set. -/
def setNextRun (s : Store) (id : String) (next : Option Int) (now : Int) : Store :=
  s.updateJob id fun r => ({ r with nextRunAt := next } : JobRow).touch now

/-- A job that cannot be scheduled no longer fires; its next fire is left as it is. -/
def disableInvalid (s : Store) (id : String) (now : Int) : Store :=
  s.updateJob id fun r => ({ r with enabled := 0 } : JobRow).touch now

/-- A job has fired: the bookkeeping moves on. -/
def recordFire (s : Store) (id : String) (enabled : Bool) (fired : Int) (next : Option Int)
    (now : Int) : Store :=
  s.updateJob id fun r =>
    ({ r with
        enabled := flagNumber enabled, lastRunAt := some fired, nextRunAt := next } : JobRow).touch
      now

/-! ### Asking for runs -/

/-- The row of a run, by its identifier. -/
def runRow? (s : Store) (id : String) : Option RunRow :=
  s.runs.find? (·.id == id)

/-- The run with an identifier. -/
def runWithId? (s : Store) (id : String) : Except RowError (Option Run) :=
  match s.runRow? id with
  | none => .ok none
  | some r => r.decode.map some

/-- How many rows a limit lets through: all of them from two to the sixty-third on. -/
def rowLimit (limit : Nat) : Option Nat :=
  if limit ≤ Text.int64Max.toNat then some limit else none

/-- The latest fire first; of the same fire, the run created last. -/
def laterRun (a b : RunRow) : Bool :=
  ((newestFirst a.scheduledFor b.scheduledFor).then (newestFirst a.createdAt b.createdAt)).isLE

/-- **The runs of a job**, the latest fire first. -/
def listRuns (s : Store) (jobId : String) (limit : Nat) : Except RowError (List Run) :=
  let ordered := (s.runs.filter (·.jobId == jobId)).mergeSort laterRun
  let kept :=
    match rowLimit limit with
    | some n => ordered.take n
    | none => ordered
  kept.mapM RunRow.decode

/-- A run comes before another one in the queue: by its fire, then by its creation. -/
def beforeInQueue (a b : RunRow) : Bool :=
  a.scheduledFor < b.scheduledFor || (a.scheduledFor == b.scheduledFor && a.createdAt < b.createdAt)

/-- The first of the given rows that no other one comes before. -/
def frontOfQueue : List RunRow → Option RunRow
  | [] => none
  | r :: rest =>
    match frontOfQueue rest with
    | none => some r
    | some best => if beforeInQueue best r then some best else some r

/-- The row at the front of the queue. -/
def oldestQueuedRow? (s : Store) : Option RunRow :=
  frontOfQueue (s.runs.filter (·.hasStatus .queued))

/-- **The run at the front of the queue.** -/
def oldestQueued? (s : Store) : Except RowError (Option Run) :=
  match s.oldestQueuedRow? with
  | none => .ok none
  | some r => r.decode.map some

/-- How many runs of a job are going. -/
def countRunning (s : Store) (jobId : String) : Nat :=
  s.runs.countP fun r => r.jobId == jobId && r.hasStatus .running

/-! ### Changing runs -/

/-- The rows that pass a test are changed. -/
def updateRuns (s : Store) (p : RunRow → Bool) (f : RunRow → RunRow) : Store :=
  { s with runs := s.runs.map fun r => if p r then f r else r }

/-- A run is added. -/
def addRun (s : Store) (r : RunRow) : Store :=
  { s with runs := s.runs ++ [r] }

/-- A run waits in the queue. -/
def isQueued (runId : String) (r : RunRow) : Bool :=
  r.id == runId && r.hasStatus .queued

/-- A run is going. -/
def isRunning (runId : String) (r : RunRow) : Bool :=
  r.id == runId && r.hasStatus .running

/-- A worker takes a run from the queue; the answer says whether it was still there. -/
def claim (s : Store) (runId : String) (now : Int) : Bool × Store :=
  (s.runs.any (isQueued runId),
    s.updateRuns (isQueued runId) fun r =>
      { r with status := RunStatus.running.name, startedAt := some now })

/-- A run that is going ends; the answer says whether it was still going. -/
def finish (s : Store) (runId : String) (status : RunStatus) (error summary : Option String)
    (now : Int) : Bool × Store :=
  (s.runs.any (isRunning runId),
    s.updateRuns (isRunning runId) fun r =>
      { r with
        status := status.name, finishedAt := some now, error, resultSummary := summary })

/-- Every run that is going fails; the answer is their number. -/
def failRunning (s : Store) (message : String) (now : Int) : Nat × Store :=
  (s.runs.countP (·.hasStatus .running),
    s.updateRuns (·.hasStatus .running) fun r =>
      { r with status := RunStatus.failed.name, finishedAt := some now, error := some message })

end Store

end Timetable
