/-
**What parties take up.**

Schedulers, workers and people reach one store, and each of them takes up one operation after the
other.  An operation is a program: it comes to statements, one after the other, and which ones it
comes to depends on the answers.  What is performed on a store is kept as a history, and the history
tells what has become of the store at every moment on the way.

Main definitions:

* `Program.Only` — every statement of a program passes a test;
* `Operation` — what a party can take up, `Operation.program` — the program it stands for;
* `Store.perform` — an operation that nothing interrupts;
* `Store.through`, `Store.stage` — the store after statements, and at each moment on the way;
* `Store.after` — the store after a history.

Main results:

* `Scheduler.only_tick`, `Scheduler.only_reconcile` — what a pass may come to;
* `Store.stage_eq_through` — between two moments lies a history;
* `Store.identified_after` — after any history rows are identified;
* `always_iff` — a property that one step can break holds all the way exactly when no step breaks
  it.
-/

import Mathlib.Data.List.Induction
import Timetable.Management
import Timetable.Proofs.Store.Identity
import Timetable.Scheduler
import Timetable.Worker.Claim

set_option autoImplicit false
set_option relaxedAutoImplicit false

namespace Timetable

/-! ### Programs whose statements pass a test -/

namespace Program

variable {α β : Type}

/-- The program without its answer. -/
def silent (p : Program α) : Program Unit := p.bind fun _ => done ()

/-- Every statement that the program may come to passes a test. -/
def Only (P : (γ : Type) → Statement γ → Prop) : Program α → Prop
  | done _ => True
  | perform (β := γ) st next => P γ st ∧ ∀ answer, (next answer).Only P

@[simp] theorem runStore_perform (st : Statement β) (next : Except AccessError β → Program α)
    (s : Store) : (perform st next).runStore s = (next (st.run s).1).runStore (st.run s).2 := rfl

theorem runStore_bind (p : Program α) (f : α → Program β) (s : Store) :
    (p.bind f).runStore s = (f (p.runStore s).1).runStore (p.runStore s).2 :=
  run_bind _ p f s

variable {P Q : (γ : Type) → Statement γ → Prop}

theorem Only.bind {p : Program α} {f : α → Program β} (hp : p.Only P) (hf : ∀ a, (f a).Only P) :
    (p.bind f).Only P := by
  induction p with
  | done a => exact hf a
  | perform st next ih => exact ⟨hp.1, fun answer => ih answer (hp.2 answer)⟩

theorem Only.silent {p : Program α} (hp : p.Only P) : p.silent.Only P :=
  hp.bind fun _ => trivial

theorem Only.attempt {st : Statement α} (h : P α st) : (attempt st).Only P :=
  ⟨h, fun _ => trivial⟩

theorem Only.require {ε : Type} {wrap : AccessError → ε} {st : Statement α} (h : P α st) :
    (require wrap st).Only P :=
  ⟨h, fun _ => trivial⟩

theorem Only.andThen {ε : Type} {p : Failing ε α} {f : α → Failing ε β} (hp : p.Only P)
    (hf : ∀ a, (f a).Only P) : (p.andThen f).Only P := by
  refine hp.bind fun answer => ?_
  cases answer with
  | ok a => exact hf a
  | error e => trivial

theorem only_true (p : Program α) : p.Only fun _ _ => True := by
  induction p with
  | done a => trivial
  | perform st next ih => exact ⟨trivial, ih⟩

theorem Only.mono {p : Program α} (hp : p.Only P) (h : ∀ γ st, P γ st → Q γ st) : p.Only Q := by
  induction p with
  | done a => trivial
  | perform st next ih => exact ⟨h _ st hp.1, fun answer => ih answer (hp.2 answer)⟩

end Program

/-! ### What schedulers and people may come to -/

namespace Scheduler

open Program

variable {P : (γ : Type) → Statement γ → Prop} {now : Int}

/-- Jobs without a next fire get the one that is computed from the given time, or are disabled. -/
theorem only_fillNextRuns {jobs : List Job}
    (hset : ∀ j ∈ jobs, ∀ next : Int, j.nextFire now = .ok next →
      P Unit (.setNextRun j.id (some next) now))
    (hdisable : ∀ j ∈ jobs, ∀ e, j.nextFire now = .error (.definition e) →
      P Unit (.disableInvalid j.id now)) :
    (fillNextRuns now jobs).Only P := by
  induction jobs with
  | nil => trivial
  | cons j rest ih =>
    have hrest := ih (fun k hk => hset k (List.mem_cons_of_mem j hk))
      fun k hk => hdisable k (List.mem_cons_of_mem j hk)
    unfold fillNextRuns
    split
    · trivial
    · rename_i e hfailure
      exact ⟨hdisable j List.mem_cons_self e hfailure, fun _ => hrest⟩
    · rename_i next hnext
      exact ⟨hset j List.mem_cons_self next hnext, fun _ => hrest⟩

theorem only_fireJobs {ids : List String}
    (henqueue : ∀ id ∈ ids, P EnqueueOutcome (.enqueue id now)) : (fireJobs now ids).Only P := by
  induction ids with
  | nil => trivial
  | cons id rest ih =>
    have hrest := ih fun k hk => henqueue k (List.mem_cons_of_mem id hk)
    refine ⟨henqueue id List.mem_cons_self, fun answer => ?_⟩
    dsimp only
    split
    · exact hrest.andThen fun _ => trivial
    · trivial
    · exact hrest

/-- Enabled jobs get the next fire that is computed from the given time, or are disabled. -/
theorem only_reconcileJobs {jobs : List Job}
    (hset : ∀ j ∈ jobs, ∀ next : Int, j.nextFire now = .ok next →
      P Unit (.setNextRun j.id (some next) now))
    (hdisable : ∀ j ∈ jobs, ∀ e, j.nextFire now = .error (.definition e) →
      P Unit (.disableInvalid j.id now)) :
    (reconcileJobs now jobs).Only P := by
  induction jobs with
  | nil => trivial
  | cons j rest ih =>
    have hrest := ih (fun k hk => hset k (List.mem_cons_of_mem j hk))
      fun k hk => hdisable k (List.mem_cons_of_mem j hk)
    unfold reconcileJobs
    split
    · trivial
    · rename_i e hfailure
      exact Only.andThen (Only.attempt (hdisable j List.mem_cons_self e hfailure)) fun _ => hrest
    · rename_i next hnext
      split
      · exact Only.andThen (Only.attempt (hset j List.mem_cons_self next hnext)) fun _ => hrest
      · exact hrest

/-- **What a pass may come to.** -/
theorem only_tick (hmissing : P (List Job) .jobsWithoutNextRun)
    (hset : ∀ (j : Job) (next : Int), j.nextFire now = .ok next →
      P Unit (.setNextRun j.id (some next) now))
    (hdisable : ∀ id, P Unit (.disableInvalid id now)) (hdue : P (List String) (.dueJobIds now))
    (henqueue : ∀ id, P EnqueueOutcome (.enqueue id now)) : (tick now).Only P := by
  refine Only.andThen (Only.attempt hmissing) fun jobs => ?_
  refine Only.andThen (only_fillNextRuns (fun j _ => hset j) fun j _ _ _ => hdisable j.id) ?_
  intro _
  exact Only.andThen (Only.attempt hdue) fun ids => only_fireJobs fun id _ => henqueue id

/-- **What a reconciliation may come to.** -/
theorem only_reconcile (henabled : P (List Job) .enabledJobs)
    (hset : ∀ (j : Job) (next : Int), j.nextFire now = .ok next →
      P Unit (.setNextRun j.id (some next) now))
    (hdisable : ∀ id, P Unit (.disableInvalid id now)) : (reconcile now).Only P := by
  refine Only.andThen (Only.attempt henabled) fun jobs => ?_
  exact only_reconcileJobs (fun j _ => hset j) fun j _ _ _ => hdisable j.id

end Scheduler

namespace Management

open Program

variable {P : (γ : Type) → Statement γ → Prop}

/-- What saving a job may come to: the definition that is stored was checked. -/
theorem only_saveJob {spec : JobSpec} {now : Int}
    (hsave : ∀ v, spec.validate = .ok v → P Unit (.saveJob v now))
    (hnamed : ∀ name, P (Option Job) (.jobNamed name)) : (saveJob spec now).Only P := by
  unfold saveJob
  split
  · trivial
  · next v hv =>
    refine Only.andThen (Only.require (hsave v hv)) fun _ => ?_
    refine Only.andThen (Only.require (hnamed _)) fun found => ?_
    cases found <;> trivial

/-- Looking a job up asks for it by its identifier, and perhaps by its name. -/
theorem only_findJob (hid : ∀ id, P (Option Job) (.jobWithId id))
    (hnamed : ∀ name, P (Option Job) (.jobNamed name)) (target : String) :
    (findJob target).Only P := by
  refine Only.andThen (Only.require (hid target)) fun found => ?_
  cases found with
  | some j => trivial
  | none =>
    refine Only.andThen (Only.require (hnamed target)) fun found => ?_
    cases found <;> trivial

theorem only_onJob {id : String} {st : Statement Bool} (h : P Bool st) : (onJob id st).Only P :=
  Only.andThen (Only.require h) fun _ => trivial

end Management

/-! ### Operations -/

/-- **What a party can take up.** -/
inductive Operation where
  /-- A job is created, or its definition replaced. -/
  | saveJob (spec : JobSpec) (now : Int)
  /-- A job is disabled. -/
  | disableJob (id : String) (now : Int)
  /-- A job is deleted, with its runs. -/
  | deleteJob (id : String)
  /-- The next fire of a job is set by hand. -/
  | setNextRun (id : String) (next : Option Int) (now : Int)
  /-- A job that cannot be scheduled is disabled. -/
  | disableInvalid (id : String) (now : Int)
  /-- The scheduler passes over the jobs. -/
  | tick (now : Int)
  /-- A single job is fired, if it is due. -/
  | enqueue (id : String) (now : Int)
  /-- Missed fires are moved into the future. -/
  | reconcile (now : Int)
  /-- The runs of an earlier process fail. -/
  | recover (now : Int)
  /-- A run is claimed. -/
  | claim (runId : String) (now : Int)
  /-- The run at the front of the queue is claimed. -/
  | claimNext (now : Int)
  /-- A run ends. -/
  | finish (runId : String) (status : RunStatus) (error summary : Option String) (now : Int)
  /-- All runs that are going fail. -/
  | failRunning (message : String) (now : Int)

namespace Operation

open Program

/-- **The program of an operation.** -/
def program : Operation → Program Unit
  | saveJob spec now => (Management.saveJob spec now).silent
  | disableJob id now => (Management.disableJob id now).silent
  | deleteJob id => (Management.deleteJob id).silent
  | setNextRun id next now => (attempt (.setNextRun id next now)).silent
  | disableInvalid id now => (attempt (.disableInvalid id now)).silent
  | tick now => (Scheduler.tick now).silent
  | enqueue id now => (attempt (.enqueue id now)).silent
  | reconcile now => (Scheduler.reconcile now).silent
  | recover now => (Scheduler.recover now).silent
  | claim runId now => (attempt (.claim runId now)).silent
  | claimNext now => (Worker.claimNext now).silent
  | finish runId status error summary now =>
    (attempt (.finish runId status error summary now)).silent
  | failRunning message now => (attempt (.failRunning message now)).silent

/-- What every connection may do: everything but setting the next fire or disabling a job on behalf
of the scheduler, and runs end in a status that ends them. -/
def Ordinary : Operation → Prop
  | setNextRun _ _ _ | disableInvalid _ _ => False
  | finish _ status _ _ _ => status.isTerminal = true
  | _ => True

/-- The time at which an operation is taken up by a party whose clock shows the given time. -/
def time : Operation → Int → Int
  | deleteJob _, clock => clock
  | saveJob _ now, _ | disableJob _ now, _ | setNextRun _ _ now, _ | disableInvalid _ now, _
  | tick now, _ | enqueue _ now, _ | reconcile now, _ | recover now, _ | claim _ now, _
  | claimNext now, _ | finish _ _ _ _ now, _ | failRunning _ now, _ => now

end Operation

/-- The store after an operation that nothing interrupts. -/
def Store.perform (s : Store) (o : Operation) : Store := (o.program.runStore s).2

/-- The store after operations one after the other, without interruption. -/
def Store.performAll (s : Store) (os : List Operation) : Store := os.foldl Store.perform s

/-! ### Histories -/

/-- A statement, whatever its answer. -/
abbrev Access : Type 1 := Σ α : Type, Statement α

/-- What an access does to the store. -/
def Access.apply (a : Access) (s : Store) : Store := (a.2.run s).2

namespace Store

/-- The store after statements one after the other. -/
def through (s : Store) (history : List Access) : Store :=
  history.foldl (fun s a => a.apply s) s

/-- The store at a moment on the way: after so many of the statements. -/
def stage (s : Store) (history : List Access) (k : Nat) : Store := s.through (history.take k)

variable {s : Store} {history : List Access}

theorem through_append (s : Store) (history more : List Access) :
    s.through (history ++ more) = (s.through history).through more :=
  List.foldl_append

theorem through_concat (s : Store) (history : List Access) (a : Access) :
    s.through (history ++ [a]) = a.apply (s.through history) :=
  through_append s history [a]

theorem stage_succ {k : Nat} {a : Access} (ha : history[k]? = some a) :
    s.stage history (k + 1) = a.apply (s.stage history k) := by
  rw [stage, List.take_add_one, ha, Option.toList_some, through_concat]
  rfl

theorem stage_length : s.stage history history.length = s.through history := by
  rw [stage, List.take_length]

/-- What happens later does not change a moment that has passed. -/
theorem stage_append {k : Nat} (hk : k ≤ history.length) (more : List Access) :
    s.stage (history ++ more) k = s.stage history k := by
  rw [stage, List.take_append_of_le_length hk]
  rfl

/-- Between two moments lies a history. -/
theorem stage_eq_through {j k : Nat} (hjk : j ≤ k) :
    s.stage history k = (s.stage history j).through ((history.take k).drop j) := by
  rw [stage, stage, ← through_append]
  congr 1
  conv_lhs => rw [← List.take_append_drop j (history.take k)]
  rw [List.take_take, Nat.min_eq_left hjk]

/-- After any history rows are identified. -/
theorem identified_through (h : s.Identified) : (s.through history).Identified := by
  induction history generalizing s with
  | nil => exact h
  | cons a history ih => exact ih (a.2.identified_run h)

/-- **The store after a history** that began without rows. -/
def after (history : List Access) : Store := empty.through history

theorem identified_after (history : List Access) : (after history).Identified :=
  identified_through identified_empty

end Store

/-- One step further in a history. -/
theorem after_take_succ {history : List Access} {k : Nat} {a : Access} (ha : history[k]? = some a) :
    Store.after (history.take (k + 1)) = a.apply (Store.after (history.take k)) :=
  Store.stage_succ ha

/-- A property that every step of a history keeps holds all the way. -/
theorem always_of_step {P : Store → Prop} {history : List Access} (hempty : P Store.empty)
    (hstep : ∀ (k : Nat) (a : Access), history[k]? = some a →
      P (Store.after (history.take k)) → P (a.apply (Store.after (history.take k))))
    (k : Nat) : P (Store.after (history.take k)) := by
  induction k with
  | zero => exact hempty
  | succ k ih =>
    cases ha : history[k]? with
    | none =>
      -- past the end of the history nothing changes any more
      have hlen : history.length ≤ k := List.getElem?_eq_none_iff.1 ha
      rw [List.take_of_length_le hlen] at ih
      rw [List.take_of_length_le (Nat.le_succ_of_le hlen)]
      exact ih
    | some a =>
      rw [after_take_succ ha]
      exact hstep k a ha ih

/-- **A property that one step can break holds all the way exactly when no step breaks it.** -/
theorem always_iff {P : Store → Prop} {Q : Access → Store → Prop} (hempty : P Store.empty)
    (hstep : ∀ (a : Access) (s : Store), s.Identified → P s → (P (a.apply s) ↔ Q a s))
    (history : List Access) :
    (∀ k, P (Store.after (history.take k))) ↔
      ∀ (k : Nat) (a : Access), history[k]? = some a → Q a (Store.after (history.take k)) := by
  constructor
  · intro hall k a ha
    refine (hstep a _ (Store.identified_after _) (hall k)).1 ?_
    rw [← after_take_succ ha]
    exact hall (k + 1)
  · intro hall
    exact always_of_step hempty fun k a ha hP =>
      (hstep a _ (Store.identified_after _) hP).2 (hall k a ha)

end Timetable
