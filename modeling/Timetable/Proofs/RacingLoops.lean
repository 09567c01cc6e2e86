/-
**When two scheduling loops record a fire twice.**

Firing a job is one indivisible access, and two loops that find the same job due fire it once.  But
a loop also computes the next fire of a job that has none, and writes it without looking again: when
the other loop has fired the job in the meantime, the write takes the job back, and the same fire
comes a second time.  This module says exactly which histories record no fire twice, and that the
write of a next fire not later than the last one is behind all others.

Main definitions:

* `RacingLoops` — who may do what: two parties pass over the jobs, all others save jobs.

Main results:

* `Reached.firesOnce_iff` — **the histories that record no fire twice**.
-/

import Timetable.Proofs.Interleaving
import Timetable.Proofs.Store.Ledger

set_option autoImplicit false
set_option relaxedAutoImplicit false

namespace Timetable

/-- **Two scheduling loops** pass over the jobs, each on its own clock, and others save jobs. -/
def RacingLoops {κ : Type} : Bool ⊕ κ → Operation → Prop
  | .inl _, .tick _ => True
  | .inr _, .saveJob _ _ => True
  | _, _ => False

namespace Reached

/-- **The histories that record no fire twice.**  Whatever two loops reach: no fire of a job was
ever on record twice exactly when every fire that was recorded on the way was not on record before.
Jobs were always in step with their records exactly when every next fire that was written on the way
was later than the last fire of the job at that moment; and then no fire was ever on record
twice. -/
theorem firesOnce_iff {κ : Type} [DecidableEq κ] {clock : Bool ⊕ κ → Int}
    {d : Session (Bool ⊕ κ)} (h : Reached RacingLoops clock d) :
    d.store = Store.after d.history ∧
      ((∀ k, (Store.after (d.history.take k)).FiresOnce) ↔
        ∀ (k : Nat) (a : Access), d.history[k]? = some a →
          a.2.FiresAnew (Store.after (d.history.take k))) ∧
      ((∀ k, (Store.after (d.history.take k)).InStep) ↔
        ∀ (k : Nat) (a : Access), d.history[k]? = some a →
          a.2.Timely (Store.after (d.history.take k))) ∧
      ((∀ k, (Store.after (d.history.take k)).InStep) →
        ∀ k, (Store.after (d.history.take k)).FiresOnce) := by
  refine ⟨h.store_eq, ?_, ?_, fun hall k => (hall k).firesOnce (Store.identified_after _)⟩
  · have hempty : Store.empty.FiresOnce := fun _ => List.nodup_nil
    exact always_iff hempty (fun a s _ honce => a.2.firesOnce_run_iff honce) _
  · exact always_iff Store.inStep_empty (fun a s hid hstep => a.2.inStep_run_iff hid hstep) _

/-- Two loops take turns at the fires of a job, and record each of them once. -/
theorem firesOnce_iff_in_turns :
    ∃ clock, ∃ d : Session (Bool ⊕ Unit), Reached RacingLoops clock d ∧
      d.store.firesOf "job:0" = [3600, 7200] ∧
      ((∀ k, (Store.after (d.history.take k)).FiresOnce) ↔
        ∀ (k : Nat) (a : Access), d.history[k]? = some a →
          a.2.FiresAnew (Store.after (d.history.take k))) := by
  obtain ⟨clock, d, h, hstore⟩ := of_turns (ι := Bool ⊕ Unit) RacingLoops (fun _ => 0)
    [(.inr (), .saveJob (.interval "report" "true" 3600) 0), (.inl false, .tick 0),
      (.inl true, .tick 3600), (.inl false, .tick 3600), (.inl false, .tick 7200)]
    (by simp [MayTake, RacingLoops, Operation.time])
  have hfires : d.store.firesOf "job:0" = [3600, 7200] := by
    rw [hstore]
    decide +kernel
  exact ⟨clock, d, h, hfires, h.firesOnce_iff.2.1⟩

/-- **A fire can be recorded twice**: after one loop has fired a job and the job was saved anew, the
other loop, whose clock is behind, computes the same fire once more. -/
theorem not_always_firesOnce :
    ¬ ∀ (clock : Bool ⊕ Unit → Int) (d : Session (Bool ⊕ Unit)),
      Reached RacingLoops clock d → d.store.FiresOnce := by
  intro hall
  obtain ⟨clock, d, h, hstore⟩ := of_turns (ι := Bool ⊕ Unit) RacingLoops (fun _ => 0)
    [(.inr (), .saveJob (.interval "report" "true" 3600) 0), (.inl false, .tick 0),
      (.inl true, .tick 3600), (.inr (), .saveJob (.interval "report" "true" 3600) 0),
      (.inl false, .tick 0), (.inl true, .tick 3700)]
    (by simp [MayTake, RacingLoops, Operation.time])
  have htwice : ¬ ((Store.empty.performAll [.saveJob (.interval "report" "true" 3600) 0, .tick 0,
      .tick 3600, .saveJob (.interval "report" "true" 3600) 0, .tick 0,
      .tick 3700]).firesOf "job:0").Nodup := by decide +kernel
  exact htwice (hstore ▸ hall clock d h "job:0")

end Reached

end Timetable
