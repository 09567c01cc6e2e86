/-
**Programs over the store.**

The scheduler, the workers and the commands are programs that reach the store through statements.
A program is a tree: it is done, or it performs a statement and goes on with the answer.  Run on its
own it is a function on the store; beside other programs it may be interrupted between any two
statements, and the rest of it is again a program.

Main definitions:

* `Program` — programs, `Program.bind` — one after the other;
* `Program.attempt` — a single statement, its failure being an answer;
* `Program.run` — **a program on its own**, against anything that answers statements;
* `Program.runStore` — the same against a store, without refused writes.

Main results:

* `Program.run_bind` — programs one after the other run one after the other.
-/

import Timetable.Store.Database

set_option autoImplicit false
set_option relaxedAutoImplicit false

namespace Timetable

/-- **A program over the store.** -/
inductive Program (α : Type) : Type 1 where
  /-- The program is done. -/
  | done (a : α)
  /-- A statement is performed, and the program goes on with its answer. -/
  | perform {β : Type} (st : Statement β) (next : Except AccessError β → Program α)

namespace Program

variable {α β σ : Type}

/-! ### Putting programs together -/

/-- One program after the other. -/
def bind : Program α → (α → Program β) → Program β
  | done a, f => f a
  | perform st next, f => perform st fun answer => (next answer).bind f

instance : Monad Program where
  pure := done
  bind := bind

/-- A single statement; its failure is an answer like any other. -/
def attempt (st : Statement α) : Program (Except AccessError α) :=
  perform st done

/-- Programs that end early with an error. -/
abbrev Failing (ε : Type) (α : Type) : Type 1 := Program (Except ε α)

/-- The second program follows unless the first one ended with an error. -/
def andThen {ε : Type} (p : Failing ε α) (f : α → Failing ε β) : Failing ε β :=
  p.bind fun
    | .ok a => f a
    | .error e => done (.error e)

/-- A statement whose failure ends the program, as the given error. -/
def require {ε : Type} (wrap : AccessError → ε) (st : Statement α) : Failing ε α :=
  perform st fun answer => done (answer.mapError wrap)

/-! ### Running programs -/

/-- **A program on its own**, against anything that answers statements. -/
def run (answer : {γ : Type} → Statement γ → σ → Except AccessError γ × σ) :
    Program α → σ → α × σ
  | done a, s => (a, s)
  | perform st next, s =>
    let (a, s') := answer st s
    (next a).run answer s'

/-- A program on its own against a store. -/
def runStore (p : Program α) (s : Store) : α × Store :=
  p.run Statement.run s

/-! ### Facts -/

/-- Programs one after the other run one after the other. -/
theorem run_bind (answer : {γ : Type} → Statement γ → σ → Except AccessError γ × σ)
    (p : Program α) (f : α → Program β) (s : σ) :
    (p.bind f).run answer s =
      let (a, s') := p.run answer s
      (f a).run answer s' := by
  induction p generalizing s with
  | done a => rfl
  | perform st next ih => exact ih _ _

end Program

end Timetable
