/-
**Parties that keep time.**

The parties of a session may take up operations at any time.  A scheduler and its workers go by
clocks, and the clock of a party does not go back.  This module says which sessions such parties
come to: from the empty store, by turns in which every party takes up only what it may take up, and
not before the time of its last operation.  Whatever is said of all sessions holds of these; what
depends on who does what, and when, is said of these only.

Main definitions:

* `Reached` — **the sessions that parties can reach**, and what their clocks show then;
* `Reached.MayTake` — operations that may be taken up one after the other.

Main results:

* `Reached.store_eq` — the store is what its history made of it;
* `Reached.only` — what is still to be done is part of what may be taken up;
* `Reached.of_turns` — operations may run from start to end without interruption;
* `Reached.of_play` — what is played by turns that may be taken is reached.
-/

import Timetable.Proofs.Session

set_option autoImplicit false
set_option relaxedAutoImplicit false

namespace Timetable

/-- **What can be reached**, and what the clocks of the parties show then.  Nobody has done anything
at first, and the store is empty.  A party that has nothing to do takes up an operation that it may
take up, not before the time of its last one; a party that has something to do performs the next
statement of it. -/
inductive Reached {ι : Type} [DecidableEq ι] (may : ι → Operation → Prop) :
    (ι → Int) → Session ι → Prop
  /-- Nobody has done anything. -/
  | opening (clock : ι → Int) : Reached may clock (.opening .empty)
  /-- A party takes up an operation. -/
  | take {clock : ι → Int} {d : Session ι} (i : ι) (o : Operation) {reply : Reply}
    (before : Reached may clock d) (idle : d.rest i = .done reply) (permitted : may i o)
    (later : clock i ≤ o.time (clock i)) :
    Reached may (Function.update clock i (o.time (clock i))) (d.turn (.take i o))
  /-- A party performs its next statement, if it has one. -/
  | act {clock : ι → Int} {d : Session ι} (i : ι) (before : Reached may clock d) :
    Reached may clock (d.turn (.act i))

namespace Operation

variable {o : Operation} {clock clock' : Int}

/-- A later clock does not make an operation earlier. -/
theorem time_mono (h : clock ≤ clock') : o.time clock ≤ o.time clock' := by
  cases o <;> first | exact h | exact Int.le_refl _

/-- An operation that may be taken up at some time may be taken up before it. -/
theorem le_time_of_le (h : clock ≤ clock') (hle : clock' ≤ o.time clock') :
    clock ≤ o.time clock := by
  cases o <;> first | exact Int.le_refl _ | exact Int.le_trans h hle

end Operation

namespace Reached

open Program

variable {ι : Type} [DecidableEq ι] {may may' : ι → Operation → Prop} {clock : ι → Int}
  {d : Session ι}

/-! ### What is kept -/

theorem mono (h : Reached may clock d) (hmay : ∀ i o, may i o → may' i o) :
    Reached may' clock d := by
  induction h with
  | opening clock => exact .opening clock
  | take i o before idle permitted later ih => exact ih.take i o idle (hmay i o permitted) later
  | act i before ih => exact ih.act i

/-- **What is reached is bound** by the rule that everything goes by that may be taken up. -/
theorem bound {rule : (γ : Type) → Statement γ → Prop}
    (hmay : ∀ i o, may i o → o.program.Only rule) (h : Reached may clock d) :
    d.Bound rule .empty := by
  induction h with
  | opening clock => exact .opening rule .empty
  | take i o before idle permitted later ih =>
    refine ih.turn fun k o' ho => ?_
    cases ho
    exact hmay i o permitted
  | act i before ih => exact ih.turn fun k o ho => nomatch ho

/-- **The store is what its history made of it.** -/
theorem store_eq (h : Reached may clock d) : d.store = Store.after d.history := by
  have hbound : d.Bound (fun _ _ => True) .empty := h.bound fun _ o _ => o.program.only_true
  exact hbound.store_eq

/-- What is reached has its rows identified. -/
theorem identified (h : Reached may clock d) : d.store.Identified := by
  rw [h.store_eq]
  exact Store.identified_after d.history

/-- **What is still to be done is part of what may be taken up**, at the time of the party. -/
theorem only {P : ι → Int → (γ : Type) → Statement γ → Prop}
    (hmay : ∀ i o clock, may i o → o.program.Only (P i (o.time clock)))
    (h : Reached may clock d) (i : ι) : (d.rest i).Only (P i (clock i)) := by
  induction h with
  | opening clock => trivial
  | @take clock d k o reply before idle permitted later ih =>
    rw [Session.turn_take idle]
    by_cases hik : i = k
    · subst hik
      rw [Session.rest_goOn_self, Function.update_self]
      exact Operation.only_call (hmay i o _ permitted)
    · simpa only [Session.goOn, Function.update_of_ne hik] using ih
  | @act clock d k before ih =>
    cases hrest : d.rest k with
    | done reply => rwa [Session.turn_act_done hrest]
    | perform st next =>
      rw [Session.turn_act hrest]
      by_cases hik : i = k
      · subst hik
        rw [hrest] at ih
        rw [Session.rest_goOn_self]
        exact ih.2 _
      · simpa only [Session.goOn, Session.perform, Function.update_of_ne hik] using ih

/-! ### Operations without interruption -/

/-- A party that is not interrupted comes to the end of what it has to do. -/
theorem run_to_end {i : ι} {p : Program Reply} (h : Reached may clock d) (hrest : d.rest i = p) :
    ∃ d', Reached may clock d' ∧ d'.store = (p.runStore d.store).2 ∧
      d'.rest = Function.update d.rest i (.done (p.runStore d.store).1) := by
  induction p generalizing d with
  | done reply =>
    refine ⟨d, h, rfl, (Function.update_eq_self i d.rest).symm.trans ?_⟩
    rw [hrest]
    rfl
  | perform st next ih =>
    have hstep := h.act i
    rw [Session.turn_act hrest] at hstep
    obtain ⟨d', h', hstore, hrest'⟩ := ih _ hstep (Session.rest_goOn_self ..)
    exact ⟨d', h', hstore, hrest'.trans (Function.update_idem ..)⟩

/-- **An operation may run from its start to its end without interruption.** -/
theorem turn (h : Reached may clock d) (hidle : d.AtRest) (i : ι) (o : Operation) (hmay : may i o)
    (hlater : clock i ≤ o.time (clock i)) :
    ∃ d', Reached may (Function.update clock i (o.time (clock i))) d' ∧ d'.AtRest ∧
      d'.store = d.store.perform o := by
  obtain ⟨reply, hreply⟩ := hidle.exists_done i
  have htaken := h.take i o hreply hmay hlater
  rw [Session.turn_take hreply] at htaken
  obtain ⟨d', h', hstore, hrest⟩ := htaken.run_to_end (Session.rest_goOn_self ..)
  refine ⟨d', h', fun k => ?_, hstore.trans (d.store.perform_eq o).symm⟩
  rw [hrest]
  by_cases hk : k = i
  · subst hk
    rw [Function.update_self]
    rfl
  · simpa only [Session.goOn, Function.update_of_ne hk] using hidle k

/-- Operations that may be taken up one after the other: each by a party that may take it up, and
not before the time of its last one. -/
def MayTake (may : ι → Operation → Prop) : (ι → Int) → List (ι × Operation) → Prop
  | _, [] => True
  | clock, (i, o) :: turns =>
    may i o ∧ clock i ≤ o.time (clock i) ∧
      MayTake may (Function.update clock i (o.time (clock i))) turns

/-- **Operations may run one after the other**, each from its start to its end. -/
theorem turns {os : List (ι × Operation)} (h : Reached may clock d) (hidle : d.AtRest)
    (hmay : MayTake may clock os) :
    ∃ clock' d', Reached may clock' d' ∧ d'.store = d.store.performAll (os.map (·.2)) := by
  induction os generalizing clock d with
  | nil => exact ⟨clock, d, h, rfl⟩
  | cons turn os ih =>
    obtain ⟨i, o⟩ := turn
    obtain ⟨hpermitted, hlater, hrest⟩ := hmay
    obtain ⟨d', h', hidle', hstore⟩ := h.turn hidle i o hpermitted hlater
    obtain ⟨clock', e, he, hend⟩ := ih h' hidle' hrest
    exact ⟨clock', e, he, hend.trans (by rw [hstore]; rfl)⟩

/-- What uninterrupted operations make of the empty store can be reached. -/
theorem of_turns (may : ι → Operation → Prop) (clock : ι → Int) (os : List (ι × Operation))
    (hmay : MayTake may clock os) :
    ∃ clock' d, Reached may clock' d ∧ d.store = Store.empty.performAll (os.map (·.2)) :=
  (Reached.opening clock).turns (fun _ => rfl) hmay

/-! ### Turns that may be taken -/

end Reached

/-- What a turn takes up, and for whom. -/
def Turn.taken? {ι : Type} : Turn ι → Option (ι × Operation)
  | take i o => some (i, o)
  | act _ => none

/-- **What is played can be reached**, when every turn takes up what its party may take up. -/
theorem Reached.of_play {ι : Type} [DecidableEq ι] {may : ι → Operation → Prop} {clock : ι → Int}
    {turns : List (Turn ι)} (hmay : MayTake may clock (turns.filterMap Turn.taken?)) :
    ∃ clock', Reached may clock' ((Session.opening .empty).play turns) := by
  -- a party that is busy does not take up anything, and its clock stays behind
  have hall (shown : ι → Int) (d : Session ι) (h : Reached may shown d)
      (hle : ∀ i, shown i ≤ clock i) : ∃ clock', Reached may clock' (d.play turns) := by
    induction turns generalizing clock shown d with
    | nil => exact ⟨shown, h⟩
    | cons t turns ih =>
      cases t with
      | act i => exact ih hmay shown _ (h.act i) hle
      | take i o =>
        obtain ⟨hpermitted, hlater, hrest⟩ := hmay
        cases hi : d.rest i with
        | done reply =>
          have hearlier : shown i ≤ o.time (shown i) := Operation.le_time_of_le (hle i) hlater
          refine ih hrest _ _ (h.take i o hi hpermitted hearlier) fun k => ?_
          by_cases hk : k = i
          · subst hk
            simpa only [Function.update_self] using Operation.time_mono (hle k)
          · simpa only [Function.update_of_ne hk] using hle k
        | perform st next =>
          have hbusy : d.turn (.take i o) = d := by simp only [Session.turn, hi]
          rw [Session.play_cons, hbusy]
          refine ih hrest shown d h ?_
          exact (Function.forall_update_iff clock fun k time => shown k ≤ time).2
            ⟨Int.le_trans (hle i) hlater, fun k _ => hle k⟩
  exact hall clock _ (.opening clock) fun _ => Int.le_refl _

end Timetable
