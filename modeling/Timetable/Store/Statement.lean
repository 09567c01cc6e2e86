/-
**Accesses to the store.**

Everything that is asked of the store or done to it goes through one *statement* at a time, and
between two statements of one party any other party may have its turn.  Statements are therefore
data: a value says what is asked, and its type says what kind of answer is due.

Main definitions:

* `Statement` — the accesses, indexed by the type of their answer;
* `Statement.run` — **what a statement answers and does**;
* `Write`, `Statement.writes` — which guarded columns a statement writes, and of which jobs.

Main results:

* `Statement.run_error` — a statement that fails changes nothing.
-/

import Timetable.Store.Enqueue

set_option autoImplicit false
set_option relaxedAutoImplicit false

namespace Timetable

/-! ### Statements -/

/-- **An access to the store**, by the type of its answer. -/
inductive Statement : Type → Type where
  /-- Add a job, or replace the definition of the job with that name. -/
  | saveJob (spec : JobSpec) (now : Int) : Statement Unit
  /-- The job with an identifier. -/
  | jobWithId (id : String) : Statement (Option Job)
  /-- The job with a name. -/
  | jobNamed (name : String) : Statement (Option Job)
  /-- The jobs that a query asks for. -/
  | listJobs (query : JobQuery) : Statement (List Job)
  /-- A job no longer fires; was there such a job? -/
  | disableJob (id : String) (now : Int) : Statement Bool
  /-- A job goes, with its runs; was there such a job? -/
  | deleteJob (id : String) : Statement Bool
  /-- The enabled jobs. -/
  | enabledJobs : Statement (List Job)
  /-- The enabled jobs without a next fire. -/
  | jobsWithoutNextRun : Statement (List Job)
  /-- The identifiers of the jobs that are due. -/
  | dueJobIds (now : Int) : Statement (List String)
  /-- The next fire of a job is set. -/
  | setNextRun (id : String) (next : Option Int) (now : Int) : Statement Unit
  /-- A job that cannot be scheduled no longer fires. -/
  | disableInvalid (id : String) (now : Int) : Statement Unit
  /-- A job fires, if it is due. -/
  | enqueue (jobId : String) (now : Int) : Statement EnqueueOutcome
  /-- The run with an identifier. -/
  | runWithId (id : String) : Statement (Option Run)
  /-- The runs of a job. -/
  | listRuns (jobId : String) (limit : Nat) : Statement (List Run)
  /-- The run at the front of the queue. -/
  | oldestQueued : Statement (Option Run)
  /-- A run is taken from the queue; was it still there? -/
  | claim (runId : String) (now : Int) : Statement Bool
  /-- A run ends; was it still going? -/
  | finish (runId : String) (status : RunStatus) (error summary : Option String) (now : Int) :
      Statement Bool
  /-- Every run that is going fails; how many were there? -/
  | failRunning (message : String) (now : Int) : Statement Nat

namespace Statement

/-- The answer of a statement that only reads runs. -/
def readRuns {α : Type} (answer : Except RowError α) : Except AccessError α :=
  answer.mapError .unreadable

/-- **What a statement answers and does.** -/
def run {α : Type} : Statement α → Store → Except AccessError α × Store
  | saveJob spec now, s => (.ok (), s.saveJob spec now)
  | jobWithId id, s => (.ok (s.jobWithId? id), s)
  | jobNamed name, s => (.ok (s.jobNamed? name), s)
  | listJobs query, s => (.ok (s.listJobs query), s)
  | disableJob id now, s => (.ok (s.jobRow? id).isSome, s.disableJob id now)
  | deleteJob id, s => (.ok (s.jobRow? id).isSome, s.deleteJob id)
  | enabledJobs, s => (.ok s.enabledJobs, s)
  | jobsWithoutNextRun, s => (.ok s.jobsWithoutNextRun, s)
  | dueJobIds now, s => (.ok (s.dueJobIds now), s)
  | setNextRun id next now, s => (.ok (), s.setNextRun id next now)
  | disableInvalid id now, s => (.ok (), s.disableInvalid id now)
  | enqueue jobId now, s => s.enqueue jobId now
  | runWithId id, s => (readRuns (s.runWithId? id), s)
  | listRuns jobId limit, s => (readRuns (s.listRuns jobId limit), s)
  | oldestQueued, s => (readRuns s.oldestQueued?, s)
  | claim runId now, s =>
    let (won, s') := s.claim runId now
    (.ok won, s')
  | finish runId status error summary now, s =>
    let (written, s') := s.finish runId status error summary now
    (.ok written, s')
  | failRunning message now, s =>
    let (count, s') := s.failRunning message now
    (.ok count, s')

/-! ### Guarded columns -/

/-- The columns whose writing can be refused. -/
inductive GuardedColumn where
  /-- The next fire of a job that exists. -/
  | nextRunAt
  /-- The flag that lets a job fire, of a job that exists. -/
  | enabled
  /-- A new run of a job. -/
  | newRun
  /-- The end of a run of a job. -/
  | runFinish
  deriving Repr, DecidableEq

/-- The writing of a guarded column, of the job with a name. -/
structure Write where
  /-- What is written. -/
  column : GuardedColumn
  /-- The name of the job that it is about. -/
  jobName : String
  deriving Repr, DecidableEq

/-- The writing of columns of the job with an identifier. -/
def writesTo (s : Store) (jobId : String) (columns : List GuardedColumn) : List Write :=
  match s.jobRow? jobId with
  | none => []
  | some r => columns.map (⟨·, r.name⟩)

/-- The ends of the runs that pass a test. -/
def endsOf (s : Store) (p : RunRow → Bool) : List Write :=
  (s.runs.filter p).flatMap fun r => writesTo s r.jobId [.runFinish]

/-- **The guarded columns that a statement writes** in a store. -/
def writes {α : Type} : Statement α → Store → List Write
  | saveJob spec _, s =>
    if s.jobs.any (·.name == spec.name) then [⟨.nextRunAt, spec.name⟩, ⟨.enabled, spec.name⟩]
    else []
  | disableJob id _, s => writesTo s id [.nextRunAt, .enabled]
  | setNextRun id _ _, s => writesTo s id [.nextRunAt]
  | disableInvalid id _, s => writesTo s id [.enabled]
  | enqueue jobId now, s =>
    match (s.enqueue jobId now).1 with
    | .ok (.queued _) | .ok (.skipped _) => writesTo s jobId [.newRun, .nextRunAt, .enabled]
    | .ok (.disabled _) => writesTo s jobId [.enabled]
    | .ok .notDue | .error _ => []
  | finish runId _ _ _ _, s => endsOf s (Store.isRunning runId)
  | failRunning _ _, s => endsOf s (·.hasStatus .running)
  | _, _ => []

/-! ### Facts -/

/-- A statement that fails changes nothing. -/
theorem run_error {α : Type} {st : Statement α} {s s' : Store} {e : AccessError}
    (h : st.run s = (.error e, s')) : s' = s := by
  cases st with
  | enqueue jobId now =>
    simp only [run, Store.enqueue] at h
    repeat' split at h
    all_goals simp_all
  | _ => simp_all [run]

end Statement

end Timetable
