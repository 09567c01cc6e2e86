/-
**Sessions.**

In a session any number of parties work on one store, each on one operation after the other, and
whose turn it is may change between any two statements.  A session keeps what has happened: the
statements that were performed, and what the operations handed back.  Turns are data, so a session
is played from a list of them, from any store; what holds after every list of turns holds however
the parties interleave.

Main definitions:

* `Reply` — what an operation hands back, `Operation.call` — an operation with its reply;
* `Session`, `Session.turn`, `Session.play` — **parties that take turns**;
* `Session.Bound` — the history of a session leads to its store, and its statements go by a rule.

Main results:

* `Operation.silent_call` — a call is the operation, and says more;
* `Store.RunsKeyed.course_through` — **runs are followed through a history**;
* `Session.turn_cases` — what a turn can be;
* `Session.bound_play` — **a session goes by the rule that its operations go by**.
-/

import Mathlib.Logic.Function.Basic
import Timetable.Proofs.Operations
import Timetable.Proofs.Store.Lifecycle

set_option autoImplicit false
set_option relaxedAutoImplicit false

namespace Timetable

/-! ### Replies -/

/-- **What an operation hands back**: the run that it claimed, if it claimed one. -/
inductive Reply where
  /-- Nothing was claimed. -/
  | nothing
  /-- The run with an identifier was claimed. -/
  | won (runId : String)
  /-- The run at the front of the queue was claimed. -/
  | handed (run : Run)
  deriving Repr, DecidableEq

/-- The identifier of the run that was claimed. -/
def Reply.claimed? : Reply → Option String
  | nothing => none
  | won runId => some runId
  | handed run => some run.id

namespace Program

variable {α β γ : Type}

/-- What a program that is done hands back. -/
def ended? : Program α → Option α
  | done a => some a
  | perform _ _ => none

theorem bind_assoc (p : Program α) (f : α → Program β) (g : β → Program γ) :
    (p.bind f).bind g = p.bind fun a => (f a).bind g := by
  induction p with
  | done a => rfl
  | perform st next ih =>
    simp only [bind]
    exact congrArg _ (funext ih)

/-- What the program may come to does not depend on its answer. -/
theorem Only.of_silent {P : (γ : Type) → Statement γ → Prop} {p : Program α} (h : p.silent.Only P) :
    p.Only P := by
  induction p with
  | done a => trivial
  | perform st next ih => exact ⟨h.1, fun answer => ih answer (h.2 answer)⟩

end Program

namespace Operation

open Program

/-- The claim of a run that was seen at the front of the queue. -/
def claimSeen (run : Run) (now : Int) : Program Reply :=
  perform (.claim run.id now) fun
    | .ok true => done (.handed (run.claimed now))
    | _ => done .nothing

/-- **An operation with its reply.** -/
def call : Operation → Program Reply
  | claim runId now => (attempt (.claim runId now)).bind fun
    | .ok true => done (.won runId)
    | _ => done .nothing
  | claimNext now => (Worker.claimNext now).bind fun
    | .ok (some run) => done (.handed run)
    | _ => done .nothing
  | o => o.program.bind fun _ => done .nothing

/-- A call is the operation, and says more. -/
theorem silent_call (o : Operation) : o.call.silent = o.program := by
  have hforget (p : Program Unit) : (p.bind fun _ => done Reply.nothing).silent = p := by
    rw [silent, bind_assoc]
    induction p with
    | done a => rfl
    | perform st next ih =>
      simp only [Program.bind] at ih ⊢
      exact congrArg _ (funext ih)
  cases o with
  | claim runId now =>
    simp only [call, silent, bind_assoc, program]
    congr 1
    funext answer
    rcases answer with e | _ | _ <;> rfl
  | claimNext now =>
    simp only [call, silent, bind_assoc, program]
    congr 1
    funext answer
    rcases answer with e | _ | _ <;> rfl
  | _ => exact hforget _

/-- Claiming the run at the front of the queue is looking at it and then claiming what was seen. -/
theorem call_claimNext (now : Int) : (claimNext now).call = perform .oldestQueued fun
    | .ok (some run) => claimSeen run now
    | _ => done .nothing := by
  simp only [call, Worker.claimNext, attempt, andThen, Program.bind]
  congr 1
  funext answer
  rcases answer with e | _ | run
  · rfl
  · rfl
  · simp only [Program.bind, claimSeen]
    congr 1
    funext won
    rcases won with e | _ | _ <;> rfl

/-- A call comes to nothing else than the operation. -/
theorem only_call {P : (γ : Type) → Statement γ → Prop} {o : Operation} (h : o.program.Only P) :
    o.call.Only P :=
  .of_silent (o.silent_call.symm ▸ h)

/-- An operation neither takes a run from the queue nor ends one. -/
def LeavesGoing : Operation → Prop
  | claim _ _ | claimNext _ | finish _ _ _ _ _ | recover _ | failRunning _ _ => False
  | _ => True

theorem only_leavesGoing {o : Operation} (h : o.LeavesGoing) :
    o.program.Only fun _ st => st.LeavesGoing := by
  cases o with
  | claim runId now => exact h.elim
  | claimNext now => exact h.elim
  | finish runId status error summary now => exact h.elim
  | recover now => exact h.elim
  | failRunning message now => exact h.elim
  | saveJob spec now => exact (Management.only_saveJob (fun _ _ => trivial) fun _ => trivial).silent
  | disableJob id now => exact (Management.only_onJob trivial).silent
  | deleteJob id => exact (Management.only_onJob trivial).silent
  | tick now =>
    exact (Scheduler.only_tick trivial (fun _ _ _ => trivial) (fun _ => trivial) trivial
      fun _ => trivial).silent
  | reconcile now =>
    exact (Scheduler.only_reconcile trivial (fun _ _ _ => trivial) fun _ => trivial).silent
  | _ => exact (Only.attempt trivial).silent

/-- An operation ends runs only in a status that ends them. -/
def EndsRuns : Operation → Prop
  | finish _ status _ _ _ => status.isTerminal = true
  | _ => True

theorem LeavesGoing.endsRuns {o : Operation} (h : o.LeavesGoing) : o.EndsRuns := by
  cases o with
  | finish runId status error summary now => exact h.elim
  | _ => trivial

theorem only_endsRuns {o : Operation} (h : o.EndsRuns) :
    o.program.Only fun _ st => st.EndsRuns := by
  by_cases hgoing : o.LeavesGoing
  · exact (only_leavesGoing hgoing).mono fun _ _ hst => hst.endsRuns
  cases o with
  | claimNext now =>
    refine (Only.andThen (Only.attempt trivial) fun found => ?_).silent
    cases found with
    | none => trivial
    | some run => exact Only.andThen (Only.attempt trivial) fun _ => trivial
  | finish runId status error summary now => exact (Only.attempt h).silent
  | claim runId now => exact (Only.attempt trivial).silent
  | recover now => exact (Only.attempt trivial).silent
  | failRunning message now => exact (Only.attempt trivial).silent
  | _ => exact absurd trivial hgoing

end Operation

/-- An operation that nothing interrupts does what its call does. -/
theorem Store.perform_eq (s : Store) (o : Operation) : s.perform o = (o.call.runStore s).2 := by
  rw [perform, ← o.silent_call, Program.silent, Program.runStore_bind]
  rfl

/-! ### Runs in a history -/

namespace Store

variable {s : Store} {history : List Access}

theorem RunsKeyed.through (hs : s.RunsKeyed) (hends : ∀ a ∈ history, a.2.EndsRuns) :
    (s.through history).RunsKeyed := by
  induction history generalizing s with
  | nil => exact hs
  | cons a history ih =>
    have hfirst : (a.apply s).RunsKeyed := Statement.runsKeyed_run (hends a (by simp)) hs
    exact ih hfirst fun b hb => hends b (List.mem_cons_of_mem a hb)

theorem RunsKeyed.stage (hs : s.RunsKeyed) (hends : ∀ a ∈ history, a.2.EndsRuns) (k : Nat) :
    (s.stage history k).RunsKeyed :=
  hs.through fun a ha => hends a (List.mem_of_mem_take ha)

theorem runSerial_le_through (hends : ∀ a ∈ history, a.2.EndsRuns) :
    s.runSerial ≤ (s.through history).runSerial := by
  induction history generalizing s with
  | nil => exact Nat.le_refl _
  | cons a history ih =>
    have hfirst : s.runSerial ≤ (a.apply s).runSerial := a.2.runSerial_le_run (hends a (by simp)) s
    exact Nat.le_trans hfirst (ih fun b hb => hends b (List.mem_cons_of_mem a hb))

/-- **Where a run comes from**: it was there when the history began, or it has an identifier that
was still to come then. -/
theorem mem_runs_through (hends : ∀ a ∈ history, a.2.EndsRuns) {r' : RunRow}
    (hr' : r' ∈ (s.through history).runs) :
    (∃ r ∈ s.runs, r.Course r') ∨ ∃ k, s.runSerial ≤ k ∧ r'.id = runIdOfSerial k := by
  induction history using List.reverseRec generalizing r' with
  | nil => exact Or.inl ⟨r', hr', .refl⟩
  | append_singleton history a ih =>
    rw [through_concat] at hr'
    have hbefore : ∀ b ∈ history, b.2.EndsRuns := fun b hb => hends b (List.mem_append_left _ hb)
    rcases Statement.mem_runs_run (hends a (by simp)) hr' with ⟨r, hr, hchange⟩ | ⟨hid, -, -⟩
    · rcases ih hbefore hr with ⟨r₀, hr₀, hcourse⟩ | ⟨k, hk, hid⟩
      · exact Or.inl ⟨r₀, hr₀, hcourse.tail hchange⟩
      · exact Or.inr ⟨k, hk, hchange.id_eq.trans hid⟩
    · exact Or.inr ⟨_, runSerial_le_through hbefore, hid⟩

/-- **Runs are followed by their identifiers**: what has the identifier of a run is that run,
later. -/
theorem RunsKeyed.course_through (hs : s.RunsKeyed) (hends : ∀ a ∈ history, a.2.EndsRuns)
    {r r' : RunRow} (hr : r ∈ s.runs) (hr' : r' ∈ (s.through history).runs) (hid : r'.id = r.id) :
    r.Course r' := by
  rcases mem_runs_through hends hr' with ⟨r₀, hr₀, hcourse⟩ | ⟨k, hk, hnew⟩
  · rwa [hs.row_unique hr hr₀ (hid.symm.trans hcourse.id_eq)]
  · exact absurd (hid.symm.trans hnew) (hs.issued hr k hk)

/-- Between two moments of a history runs are followed too. -/
theorem RunsKeyed.course_stage (hs : s.RunsKeyed) (hends : ∀ a ∈ history, a.2.EndsRuns) {j k : Nat}
    (hjk : j ≤ k) {r r' : RunRow} (hr : r ∈ (s.stage history j).runs)
    (hr' : r' ∈ (s.stage history k).runs) (hid : r'.id = r.id) : r.Course r' := by
  rw [stage_eq_through hjk] at hr'
  have hkeyed : (s.stage history j).RunsKeyed := hs.stage hends j
  exact hkeyed.course_through
    (fun a ha => hends a (List.mem_of_mem_take (List.mem_of_mem_drop ha))) hr hr' hid

theorem runSerial_stage_le (hends : ∀ a ∈ history, a.2.EndsRuns) {j k : Nat} (hjk : j ≤ k) :
    (s.stage history j).runSerial ≤ (s.stage history k).runSerial := by
  rw [stage_eq_through hjk]
  exact runSerial_le_through fun a ha => hends a (List.mem_of_mem_take (List.mem_of_mem_drop ha))

end Store

/-! ### Sessions -/

/-- What was handed back to a party. -/
structure Return (ι : Type) where
  /-- The party. -/
  party : ι
  /-- What it got. -/
  reply : Reply
  /-- How many statements had been performed by then. -/
  moment : Nat

/-- **Parties at work on a store.** -/
structure Session (ι : Type) where
  /-- The store. -/
  store : Store
  /-- What every party still has to do. -/
  rest : ι → Program Reply
  /-- The statements that were performed. -/
  history : List Access
  /-- What was handed back. -/
  returns : List (Return ι)

/-- **A turn** of a party. -/
inductive Turn (ι : Type) where
  /-- A party that has nothing to do takes up an operation. -/
  | take (i : ι) (o : Operation)
  /-- A party performs its next statement. -/
  | act (i : ι)

/-- A turn takes up no operation that ends runs in a status that does not end them. -/
def Turn.EndsRuns {ι : Type} : Turn ι → Prop
  | take _ o => o.EndsRuns
  | act _ => True

namespace Session

variable {ι : Type} [DecidableEq ι]

/-- A store before anybody has done anything. -/
def opening (s : Store) : Session ι :=
  { store := s, rest := fun _ => .done .nothing, history := [], returns := [] }

/-- A party goes on with a program; when that is done, its reply is handed back. -/
def goOn (d : Session ι) (i : ι) (p : Program Reply) : Session ι :=
  { d with
    rest := Function.update d.rest i p
    returns := d.returns ++ (p.ended?.map fun reply => ⟨i, reply, d.history.length⟩).toList }

/-- A statement is performed. -/
def perform {β : Type} (d : Session ι) (st : Statement β) : Session ι :=
  { d with store := (st.run d.store).2, history := d.history ++ [⟨β, st⟩] }

/-- **A turn is taken**; a party that cannot take its turn lets it pass. -/
def turn (d : Session ι) : Turn ι → Session ι
  | .take i o =>
    match d.rest i with
    | .done _ => d.goOn i o.call
    | .perform _ _ => d
  | .act i =>
    match d.rest i with
    | .done _ => d
    | .perform st next => (d.perform st).goOn i (next (st.run d.store).1)

/-- Turns are taken one after the other. -/
def play (d : Session ι) (turns : List (Turn ι)) : Session ι := turns.foldl turn d

/-- Everybody has done what was to be done. -/
def AtRest (d : Session ι) : Prop := ∀ i, (d.rest i).ended?.isSome = true

instance (d : Session Bool) : Decidable d.AtRest :=
  inferInstanceAs (Decidable (∀ i : Bool, (d.rest i).ended?.isSome = true))

omit [DecidableEq ι] in
theorem AtRest.exists_done {d : Session ι} (h : d.AtRest) (i : ι) :
    ∃ reply, d.rest i = .done reply := by
  have hended := h i
  cases hrest : d.rest i with
  | done reply => exact ⟨reply, rfl⟩
  | perform st next =>
    rw [hrest] at hended
    cases hended

/-! ### What one turn does -/

variable {s : Store} {d : Session ι} {t : Turn ι}

theorem play_cons (d : Session ι) (t : Turn ι) (turns : List (Turn ι)) :
    d.play (t :: turns) = (d.turn t).play turns := rfl

/-- A party that has nothing to do takes up an operation. -/
theorem turn_take {i : ι} {o : Operation} {reply : Reply} (h : d.rest i = .done reply) :
    d.turn (.take i o) = d.goOn i o.call := by
  simp only [turn, h]

/-- A party whose next statement is given performs it. -/
theorem turn_act {i : ι} {γ : Type} {st : Statement γ} {next : Except AccessError γ → Program Reply}
    (h : d.rest i = .perform st next) :
    d.turn (.act i) = (d.perform st).goOn i (next (st.run d.store).1) := by
  simp only [turn, h]

theorem turn_act_done {i : ι} {reply : Reply} (h : d.rest i = .done reply) :
    d.turn (.act i) = d := by
  simp only [turn, h]

theorem rest_goOn_self (d : Session ι) (i : ι) (p : Program Reply) : (d.goOn i p).rest i = p :=
  Function.update_self ..

/-- A turn performs at most one statement. -/
theorem turn_cases (d : Session ι) (t : Turn ι) :
    (d.turn t).store = d.store ∧ (d.turn t).history = d.history ∨
      ∃ (i : ι) (β : Type) (st : Statement β) (next : Except AccessError β → Program Reply),
        t = .act i ∧ d.rest i = .perform st next ∧
        d.turn t = (d.perform st).goOn i (next (st.run d.store).1) := by
  cases t with
  | take i o =>
    refine Or.inl ?_
    simp only [turn]
    split <;> exact ⟨rfl, rfl⟩
  | act i =>
    cases hrest : d.rest i with
    | done reply => exact Or.inl (by simp only [turn, hrest, and_self])
    | perform st next => exact Or.inr ⟨i, _, st, next, rfl, hrest, by simp only [turn, hrest]⟩

/-- When a party goes on, what holds of what everybody has to do holds afterwards. -/
theorem rest_goOn {Q : Program Reply → Prop} {i : ι} {p : Program Reply} (h : ∀ k, Q (d.rest k))
    (hp : Q p) (k : ι) : Q ((d.goOn i p).rest k) :=
  (Function.forall_update_iff d.rest fun _ q => Q q).2 ⟨hp, fun k _ => h k⟩ k

/-- What is still to be done is part of what was taken up. -/
theorem only_turn {P : (γ : Type) → Statement γ → Prop} (h : ∀ k, (d.rest k).Only P)
    (ht : ∀ i o, t = .take i o → o.program.Only P) (k : ι) : ((d.turn t).rest k).Only P := by
  cases t with
  | take i o =>
    simp only [turn]
    split
    · exact rest_goOn h (Operation.only_call (ht i o rfl)) k
    · exact h k
  | act i =>
    cases hrest : d.rest i with
    | done reply => simpa only [turn, hrest] using h k
    | perform st next =>
      have hi := h i
      rw [hrest] at hi
      simp only [turn, hrest]
      exact rest_goOn (d := d.perform st) h (hi.2 _) k

/-! ### What a session keeps -/

/-- **A session is bound** by a rule for statements: its history leads from a store to its own, and
what was performed and what is still to be done goes by the rule. -/
structure Bound (rule : (γ : Type) → Statement γ → Prop) (s : Store) (d : Session ι) : Prop where
  /-- The store is what the statements performed made of it. -/
  store_eq : d.store = s.through d.history
  /-- What is done goes by the rule. -/
  performed : ∀ a ∈ d.history, rule a.1 a.2
  /-- What is still to be done goes by the rule. -/
  rest : ∀ i, (d.rest i).Only rule

namespace Bound

variable {rule : (γ : Type) → Statement γ → Prop}

omit [DecidableEq ι] in
theorem opening (rule : (γ : Type) → Statement γ → Prop) (s : Store) :
    (Session.opening s : Session ι).Bound rule s where
  store_eq := rfl
  performed _ ha := nomatch ha
  rest _ := trivial

omit [DecidableEq ι] in
theorem perform (h : d.Bound rule s) {β : Type} {st : Statement β} (hst : rule β st) :
    (d.perform st).Bound rule s where
  store_eq := by
    simp only [Session.perform, Store.through_concat, ← h.store_eq]
    rfl
  performed := List.forall_mem_append.2 ⟨h.performed, List.forall_mem_singleton.2 hst⟩
  rest := h.rest

/-- A turn leaves a session bound when what it takes up goes by the rule. -/
theorem turn (h : d.Bound rule s) (ht : ∀ i o, t = .take i o → o.program.Only rule) :
    (d.turn t).Bound rule s := by
  have hrest : ∀ i, ((d.turn t).rest i).Only rule := only_turn h.rest ht
  obtain ⟨hstore, hhistory⟩ | ⟨i, β, st, next, -, hi, hturn⟩ := d.turn_cases t
  · exact ⟨by rw [hstore, hhistory, h.store_eq], by rw [hhistory]; exact h.performed, hrest⟩
  · have hst := h.rest i
    rw [hi] at hst
    have hperform := h.perform hst.1
    rw [hturn] at hrest ⊢
    exact ⟨hperform.store_eq, hperform.performed, hrest⟩

end Bound

/-- **A session is tracked** from a store: its history leads from there to its store, and runs are
only ended in a status that ends them. -/
structure Tracked (s : Store) (d : Session ι) : Prop where
  /-- The store is what the statements performed made of it. -/
  store_eq : d.store = s.through d.history
  /-- What is done ends runs only in a status that ends them. -/
  ends : ∀ a ∈ d.history, a.2.EndsRuns
  /-- What is still to be done ends runs only in a status that ends them. -/
  rest : ∀ i, (d.rest i).Only fun _ st => st.EndsRuns

omit [DecidableEq ι] in
theorem tracked_iff : d.Tracked s ↔ d.Bound (fun _ st => st.EndsRuns) s :=
  ⟨fun h => ⟨h.store_eq, h.ends, h.rest⟩, fun h => ⟨h.store_eq, h.performed, h.rest⟩⟩

omit [DecidableEq ι] in
theorem tracked_opening (s : Store) : (opening s : Session ι).Tracked s :=
  tracked_iff.2 (.opening _ s)

namespace Tracked

omit [DecidableEq ι] in
/-- Identifiers of runs stay apart. -/
theorem runsKeyed (h : d.Tracked s) (hs : s.RunsKeyed) : d.store.RunsKeyed := by
  rw [h.store_eq]
  exact hs.through h.ends

omit [DecidableEq ι] in
theorem perform (h : d.Tracked s) {β : Type} {st : Statement β} (hst : st.EndsRuns) :
    (d.perform st).Tracked s :=
  tracked_iff.2 ((tracked_iff.1 h).perform hst)

theorem turn (h : d.Tracked s) (ht : t.EndsRuns) : (d.turn t).Tracked s := by
  refine tracked_iff.2 ((tracked_iff.1 h).turn fun i o ho => ?_)
  subst ho
  exact Operation.only_endsRuns ht

end Tracked

/-- **What every turn keeps holds after all turns.** -/
theorem play_induction {P : Session ι → Prop} {turns : List (Turn ι)} (h : P d)
    (hturn : ∀ d, ∀ t ∈ turns, P d → P (d.turn t)) : P (d.play turns) := by
  induction turns generalizing d with
  | nil => exact h
  | cons t turns ih =>
    exact ih (hturn d t (by simp) h) fun d u hu => hturn d u (List.mem_cons_of_mem t hu)

/-- A session is bound by the rule that everything it takes up goes by. -/
theorem bound_play {rule : (γ : Type) → Statement γ → Prop} (s : Store) {turns : List (Turn ι)}
    (hturns : ∀ i o, .take i o ∈ turns → o.program.Only rule) :
    ((opening s).play turns).Bound rule s :=
  play_induction (.opening rule s) fun _ _ ht h => h.turn fun i o ho => hturns i o (ho ▸ ht)

/-- **Every session is tracked** from the store that it was opened on. -/
theorem tracked_play (s : Store) {turns : List (Turn ι)} (hturns : ∀ t ∈ turns, t.EndsRuns) :
    ((opening s).play turns).Tracked s :=
  play_induction (tracked_opening s) fun _ t ht h => h.turn (hturns t ht)

end Session

end Timetable
