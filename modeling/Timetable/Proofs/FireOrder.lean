/-
**With one scheduling loop, fires only advance.**

The loop reads the jobs, computes their next fires and writes them in separate statements, and
between these others may save, disable and delete jobs and work on runs.  What it writes can
therefore be stale.  It is never in the past, though: the loop writes next fires later than its own
clock and fires jobs only up to its clock, so everything on record lies at or before the clock, and
a next fire lies after it when it is written, whatever happened in between.

Main definitions:

* `OneLoop` — who may do what: one party is the loop, all others leave fires alone;
* `Statement.Punctual` — a statement writes next fires after a time and fires up to it;
* `Store.Until` — everything on record lies at or before a time.

Main results:

* `Operation.only_punctual` — what the loop does is punctual;
* `Statement.until_run` — punctual statements keep the record up to the clock;
* `Reached.inStep` — the invariant of every run;
* `Reached.fires_advance` — **the fires of every job strictly advance**.
-/

import Timetable.Proofs.Interleaving
import Timetable.Proofs.Store.Ledger

set_option autoImplicit false
set_option relaxedAutoImplicit false

namespace Timetable

open Program

/-! ### Punctual statements -/

namespace Statement

variable {α : Type} {clock : Int}

/-- A statement writes next fires that lie after a time, and fires jobs up to that time. -/
def Punctual {α : Type} (clock : Int) : Statement α → Prop
  | setNextRun _ next _ => ∀ fire, next = some fire → clock < fire
  | enqueue _ now => now ≤ clock
  | _ => True

/-- A statement neither sets a next fire nor fires a job. -/
def LeavesFires {α : Type} : Statement α → Prop
  | setNextRun _ _ _ | enqueue _ _ => False
  | _ => True

theorem LeavesFires.punctual {st : Statement α} (h : st.LeavesFires) : st.Punctual clock := by
  cases st with
  | setNextRun id next now => exact h.elim
  | enqueue id now => exact h.elim
  | _ => trivial

end Statement

namespace Scheduler

/-- Next fires are computed from the time of the pass, and lie after it. -/
theorem punctual_setNextRun {j : Job} {now next : Int} (h : j.nextFire now = .ok next) :
    (Statement.setNextRun j.id (some next) now).Punctual now := by
  intro fire hfire
  cases hfire
  exact Job.lt_nextFire h

theorem only_punctual_tick (now : Int) : (tick now).Only fun _ st => st.Punctual now :=
  only_tick trivial (fun _ _ h => punctual_setNextRun h) (fun _ => trivial) trivial
    fun _ => Int.le_refl now

theorem only_punctual_reconcile (now : Int) :
    (reconcile now).Only fun _ st => st.Punctual now :=
  only_reconcile trivial (fun _ _ h => punctual_setNextRun h) fun _ => trivial

end Scheduler

/-! ### Who may do what -/

namespace Operation

/-- What the loop does: recovery and reconciliation, and passes. -/
def OfLoop : Operation → Prop
  | tick _ | reconcile _ | recover _ => True
  | _ => False

/-- What others do: they work on jobs and runs, and leave fires to the loop. -/
def OfOthers : Operation → Prop
  | saveJob _ _ | disableJob _ _ | deleteJob _ | claim _ _ | claimNext _ | finish _ _ _ _ _
  | recover _ | failRunning _ _ => True
  | _ => False

/-- **What the loop does is punctual**, seen from the time at which it was taken up. -/
theorem only_punctual {o : Operation} (h : o.OfLoop) (clock : Int) :
    o.program.Only fun _ st => st.Punctual (o.time clock) := by
  cases o with
  | tick now => exact (Scheduler.only_punctual_tick now).silent
  | reconcile now => exact (Scheduler.only_punctual_reconcile now).silent
  | recover now => exact (Only.attempt trivial).silent
  | _ => exact h.elim

/-- What others do leaves fires alone. -/
theorem only_leavesFires {o : Operation} (h : o.OfOthers) :
    o.program.Only fun _ st => st.LeavesFires := by
  cases o with
  | saveJob spec now =>
    exact (Management.only_saveJob (fun _ _ => trivial) fun _ => trivial).silent
  | disableJob id now => exact (Management.only_onJob trivial).silent
  | deleteJob id => exact (Management.only_onJob trivial).silent
  | claim runId now => exact (Only.attempt trivial).silent
  | claimNext now =>
    refine Only.silent (Only.andThen (Only.attempt trivial) fun found => ?_)
    cases found with
    | none => trivial
    | some run => exact Only.andThen (Only.attempt trivial) fun _ => trivial
  | finish runId status error summary now => exact (Only.attempt trivial).silent
  | recover now => exact (Only.attempt trivial).silent
  | failRunning message now => exact (Only.attempt trivial).silent
  | _ => exact h.elim

end Operation

/-- **One scheduling loop**: one party is the loop, and all others leave fires to it. -/
def OneLoop {ι : Type} (loop : ι) (i : ι) (o : Operation) : Prop :=
  (i = loop ∧ o.OfLoop) ∨ (i ≠ loop ∧ o.OfOthers)

/-- What a party may come to, seen from its own clock. -/
def OneLoop.Grants {ι : Type} (loop i : ι) (clock : Int) (γ : Type) (st : Statement γ) : Prop :=
  (i = loop ∧ st.Punctual clock) ∨ (i ≠ loop ∧ st.LeavesFires)

/-! ### The record and the clock -/

namespace Store

/-- Everything on record lies at or before a time. -/
def Until (s : Store) (clock : Int) : Prop := ∀ jobId, ∀ fire ∈ s.firesOf jobId, fire ≤ clock

theorem until_empty (clock : Int) : empty.Until clock := fun _ _ h => nomatch h

theorem Until.mono {s : Store} {clock clock' : Int} (h : s.Until clock) (hle : clock ≤ clock') :
    s.Until clock' :=
  fun jobId fire hfire => Int.le_trans (h jobId fire hfire) hle

end Store

namespace Statement

variable {α : Type} {clock : Int} {s : Store}

/-- A statement puts on record only fires that have come. -/
theorem recorded_le {st : Statement α} (hst : st.Punctual clock) {jobId : String} {fire : Int}
    (h : fire ∈ st.recorded s jobId) : fire ≤ clock := by
  cases st with
  | enqueue id now =>
    obtain ⟨-, hanswer⟩ | ⟨e, hdisabled⟩ |
        ⟨r, t, enabled, next, busy, -, -, ht, -, -, hfired⟩ := s.enqueue_cases id now
    · rcases hanswer with hanswer | hanswer <;>
        simp only [recorded, hanswer, List.not_mem_nil] at h
    · simp only [recorded, hdisabled, List.not_mem_nil] at h
    · have hle : t ≤ now := (Job.pendingFire?_eq_some ht).2.2
      have hrecorded : (enqueue id now).recorded s jobId = if r.id = jobId then [t] else [] := by
        cases busy <;> simp only [recorded, hfired, Bool.false_eq_true, if_false, if_true,
          Job.firedRun_jobId, Job.firedRun_scheduledFor, JobRow.decode_id]
      rw [hrecorded] at h
      split at h
      · rw [List.mem_singleton.1 h]
        exact Int.le_trans hle hst
      · cases h
  | _ => cases h

/-- **Punctual statements keep the record up to the clock.** -/
theorem until_run {st : Statement α} (hst : st.Punctual clock) (h : s.Until clock) :
    (st.run s).2.Until clock := by
  intro jobId fire hfire
  rcases st.firesOf_run s jobId with heq | ⟨hnil, -⟩
  · rw [heq] at hfire
    rcases List.mem_append.1 hfire with hold | hnew
    · exact h jobId fire hold
    · exact recorded_le hst hnew
  · rw [hnil] at hfire
    cases hfire

/-- While the record lies at or before the clock, punctual statements are timely. -/
theorem Punctual.timely {st : Statement α} (hst : st.Punctual clock) (hstep : s.InStep)
    (h : s.Until clock) : st.Timely s := by
  cases st with
  | setNextRun id next now =>
    -- the last fire is on record, so it lies at or before the clock, and the next one after it
    rintro r hr - last fire hlast hfire
    have hmem : last ∈ s.firesOf r.id := ((hstep r hr).mem_and_le hlast).1
    exact Int.lt_of_le_of_lt (h r.id last hmem) (hst fire hfire)
  | _ => trivial

end Statement

/-! ### Every run -/

namespace Reached

variable {ι : Type} [DecidableEq ι] {loop : ι} {clock : ι → Int} {d : Session ι}

/-- What any party still has to do is punctual, seen from the clock of the loop. -/
theorem only_punctual (h : Reached (OneLoop loop) clock d) (i : ι) :
    (d.rest i).Only fun _ st => st.Punctual (clock loop) := by
  have hgranted : (d.rest i).Only (OneLoop.Grants loop i (clock i)) := by
    refine h.only (fun k o clock hko => ?_) i
    rcases hko with ⟨rfl, ho⟩ | ⟨hk, ho⟩
    · exact (Operation.only_punctual ho clock).mono fun _ st hst => Or.inl ⟨rfl, hst⟩
    · exact (Operation.only_leavesFires ho).mono fun _ st hst => Or.inr ⟨hk, hst⟩
  refine hgranted.mono fun _ st hst => ?_
  rcases hst with ⟨rfl, hpunctual⟩ | ⟨-, hleaves⟩
  · exact hpunctual
  · exact hleaves.punctual

/-- **The invariant of every run**: jobs are in step with their records, and the records lie at or
before the clock of the loop. -/
theorem inStep (h : Reached (OneLoop loop) clock d) :
    d.store.InStep ∧ d.store.Until (clock loop) := by
  induction h with
  | opening clock => exact ⟨Store.inStep_empty, Store.until_empty _⟩
  | take i o before idle permitted later ih =>
    -- no row changes, and the clock of the loop does not go back
    rw [Session.turn_take idle]
    refine ⟨ih.1, ih.2.mono ?_⟩
    by_cases hi : loop = i
    · subst hi
      simpa only [Function.update_self] using later
    · simp only [Function.update_of_ne hi, Int.le_refl]
  | @act clock d i before ih =>
    cases hi : d.rest i with
    | done reply => rwa [Session.turn_act_done hi]
    | perform st next =>
      -- whoever acts, the statement is punctual for the clock of the loop, however stale it is
      have hrest := before.only_punctual i
      rw [hi] at hrest
      rw [Session.turn_act hi]
      exact ⟨Statement.inStep_run _ before.identified ih.1 (hrest.1.timely ih.1 ih.2),
        Statement.until_run hrest.1 ih.2⟩

/-- **The fires of every job strictly advance.**  With one scheduling loop, whatever the others do
in between its statements: the runs of a job stand for ever later fires, in the order in which they
were created; the job has a last fire exactly when it has a run, and then that is the latest fire of
its runs; and its next fire, if it has one, is later than its last one, also while it is
disabled. -/
theorem fires_advance (h : Reached (OneLoop loop) clock d) :
    ∀ r ∈ d.store.jobs,
      (d.store.firesOf r.id).Pairwise (· < ·) ∧
      (r.lastRunAt = none ↔ d.store.firesOf r.id = []) ∧
      (∀ last, r.lastRunAt = some last →
        last ∈ d.store.firesOf r.id ∧ ∀ fire ∈ d.store.firesOf r.id, fire ≤ last) ∧
      (∀ last next, r.lastRunAt = some last → r.nextRunAt = some next → last < next) := by
  intro r hr
  have hrow : r.InStep (d.store.firesOf r.id) := h.inStep.1 r hr
  exact ⟨hrow.advancing, hrow.lastRunAt_eq_none_iff, fun last hlast => hrow.mem_and_le hlast,
    hrow.next⟩

/-- A job is saved, fires, is saved anew, and fires again. -/
theorem fires_advance_saved_anew :
    ∃ clock, ∃ d : Session Bool, Reached (OneLoop true) clock d ∧
      d.store.firesOf "job:0" = [3600, 7200] ∧
      ∀ r ∈ d.store.jobs,
        (d.store.firesOf r.id).Pairwise (· < ·) ∧
        (r.lastRunAt = none ↔ d.store.firesOf r.id = []) ∧
        (∀ last, r.lastRunAt = some last →
          last ∈ d.store.firesOf r.id ∧ ∀ fire ∈ d.store.firesOf r.id, fire ≤ last) ∧
        (∀ last next, r.lastRunAt = some last → r.nextRunAt = some next → last < next) := by
  obtain ⟨clock, d, h, hstore⟩ := of_turns (OneLoop true) (fun _ => 0)
    [(false, .saveJob (.interval "report" "true" 3600) 0), (true, .reconcile 0),
      (true, .tick 3600), (false, .saveJob (.interval "report" "true" 3600) 3600),
      (true, .tick 3600), (true, .tick 7200)]
    (by simp [MayTake, OneLoop, Operation.OfLoop, Operation.OfOthers, Operation.time])
  have hfires : d.store.firesOf "job:0" = [3600, 7200] := by
    rw [hstore]
    decide +kernel
  exact ⟨clock, d, h, hfires, h.fires_advance⟩

end Reached

end Timetable
