/-
**Outcomes of runs.**

When the task of a run returns, its result is turned into what is stored: how the run ended, what
went wrong, and what the task had to say, the texts cut to the configured lengths.  A task that
succeeds has succeeded, whatever happened to its context; a task that fails is judged by what
stopped its context, if anything did.

Main definitions:

* `TaskResult` — what a task returns;
* `Outcome` — what is stored;
* `Outcome.classify` — **from the one to the other**;
* `Outcome.withoutJob` — the outcome of a run whose job cannot be loaded.
-/

import Timetable.Settings.Basic
import Timetable.Text.Limit
import Timetable.Worker.Context

set_option autoImplicit false
set_option relaxedAutoImplicit false

namespace Timetable

/-- **What a task returns**: a summary, if it has one, or what went wrong, from the outside in. -/
abbrev TaskResult : Type := Except (List String) (Option String)

/-- A chain of causes on one line. -/
def causeLine (causes : List String) : String :=
  ": ".intercalate causes

/-- **What is stored at the end of a run.** -/
structure Outcome where
  /-- How the run ended. -/
  status : RunStatus
  /-- What went wrong. -/
  error : Option String
  /-- What the task had to say. -/
  summary : Option String
  deriving Repr, DecidableEq

namespace Outcome

/-- The error of a run that was stopped at its deadline. -/
def timeoutMessage (seconds : Nat) : String :=
  "timeout: run exceeded " ++ Text.natText seconds ++ "s deadline"

/-- The error of a run that was stopped by a shutdown. -/
def canceledMessage : String := "canceled"

/-- How a run ended whose task failed, and with which error. -/
def ofFailure (c : RunContext) (causes : List String) : RunStatus × String :=
  match c.stopped with
  | some .deadline => (.timedOut, timeoutMessage c.timeout)
  | some .shutdown => (.canceled, canceledMessage)
  | none => (.failed, causeLine causes)

/-- **The outcome of a run**, from its context and the result of its task. -/
def classify (settings : SchedulerSettings) (c : RunContext) (result : TaskResult) : Outcome :=
  match result with
  | .ok summary =>
    { status := .succeeded
      error := none
      summary := summary.map (Text.limit settings.maxSummaryChars) }
  | .error causes =>
    let failure := ofFailure c causes
    { status := failure.1
      error := some (Text.limit settings.maxErrorChars failure.2)
      summary := none }

/-- The outcome of a run whose job cannot be loaded. -/
def withoutJob (settings : SchedulerSettings) (message : String) : Outcome :=
  { status := .failed
    error := some (Text.limit settings.maxErrorChars message)
    summary := none }

/-- Every outcome is the end of a run. -/
theorem isTerminal_classify (settings : SchedulerSettings) (c : RunContext) (result : TaskResult) :
    (classify settings c result).status.isTerminal = true := by
  cases result with
  | ok summary => rfl
  | error causes =>
    simp only [classify, ofFailure]
    split <;> rfl

end Outcome

end Timetable
