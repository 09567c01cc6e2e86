/-
**What workers know of their runs.**

A worker takes a run from the queue and does not read its row again: until it has stored how the run
ended it goes by what it saw, with the columns that it wrote itself.  Meanwhile others recover the
runs of an earlier process, delete jobs and edit them, other workers take runs, and an access of the
worker can fail or be given up.  Still, what the worker holds is what the row says as long as the
run is going, since a run that is going changes only by ending; and a run that a worker has let go
it never holds again, since a claim that went through cannot be repeated.

An access that is given up may be carried out later.  The worker has gone on by then, and the access
is one of another party.

Main definitions:

* `Store.WasGoing` — at some moment the row of a run was going and was as the run is;
* `Crew.Step` — **one step of a crew**;
* `Crew.Snapshots` — what workers hold is as it is stored;
* `Crew.LetGo`, `Crew.EndsOnce` — a worker has let a run go, and workers end a run once.

Main results:

* `Store.WasGoing.eq_of_running` — a row that is still going is as it was;
* `Crew.Snapshots.step` — **what workers hold stays as it is stored**;
* `Crew.LetGo.step` — what a worker has let go it does not get again;
* `Crew.EndsOnce.step` — workers go on to end a run once.
-/

import Timetable.Proofs.RunningRuns

set_option autoImplicit false
set_option relaxedAutoImplicit false

namespace Timetable

/-! ### Rows that were going -/

/-- The run that a statement is to end. -/
def Statement.ended? {α : Type} : Statement α → Option String
  | finish runId _ _ _ _ => some runId
  | _ => none

/-- A worker is to end the run that it holds, and lets it go. -/
theorem Phase.Moves.held_of_ended {s : Store} {now : Int} {p p' : Phase} {a : Access}
    (h : Moves s now p a p') {runId : String} (hended : a.2.ended? = some runId) :
    (∃ run, p.held? = some run ∧ run.id = runId) ∧ p'.held? = none := by
  cases h with
  | tell job run outcome written =>
    cases hended
    exact ⟨⟨run, rfl, rfl⟩, rfl⟩
  | rest stored run outcome =>
    cases hended
    exact ⟨⟨run, rfl, rfl⟩, rfl⟩
  | _ => cases hended

namespace Store

/-- **A run was going**: at some moment of a history its row was going, and was as the run is. -/
def WasGoing (s : Store) (history : List Access) (run : Run) : Prop :=
  run.status = .running ∧ ∃ k ≤ history.length, RunRow.ofRun run ∈ (s.stage history k).runs

variable {s : Store} {history : List Access} {run : Run}

theorem WasGoing.append (h : s.WasGoing history run) (more : List Access) :
    s.WasGoing (history ++ more) run := by
  obtain ⟨hrunning, k, hk, hrow⟩ := h
  refine ⟨hrunning, k, ?_, ?_⟩
  · rw [List.length_append]
    omega
  · rwa [stage_append hk]

/-- **A row that is still going is as it was.** -/
theorem WasGoing.eq_of_running (h : s.WasGoing history run) (hs : s.RunsKeyed)
    (hends : ∀ a ∈ history, a.2.EndsRuns) {r : RunRow} (hr : r ∈ (s.through history).runs)
    (hid : r.id = run.id) (hgoing : r.hasStatus .running = true) : r = RunRow.ofRun run := by
  obtain ⟨hrunning, k, hk, hrow⟩ := h
  rw [← stage_length] at hr
  have hcourse : (RunRow.ofRun run).Course r := hs.course_stage hends hk hrow hr hid
  exact hcourse.eq_of_running (by rw [RunRow.hasStatus_ofRun, hrunning]; rfl) hgoing

end Store

/-! ### Steps of a crew -/

namespace Crew

variable {ι ω : Type} [DecidableEq ι] [DecidableEq ω] {s : Store} {d d' : Crew ι ω}

/-- **What a worker can do in a crew.** -/
inductive Goes (d : Crew ι ω) (w : ω) : Crew ι ω → Prop where
  /-- Something happens to the worker between its accesses, or one fails. -/
  | slip (p : Phase) (slips : (d.worker w).Slips p) : Goes d w (d.move w p)
  /-- The worker makes an access. -/
  | access (now : Int) (a : Access) (p : Phase) (moves : (d.worker w).Moves d.store now a p) :
    Goes d w ((answer w a.2 d).2.move w p)

/-- **One step of a crew.** -/
inductive Step (d : Crew ι ω) : Crew ι ω → Prop where
  /-- A party other than the workers takes its turn. -/
  | party (t : Timetable.Turn ι) (ends : t.EndsRuns) :
    Step d { d with toSession := d.toSession.turn t }
  /-- A worker does something. -/
  | worker (w : ω) (d' : Crew ι ω) (goes : d.Goes w d') : Step d d'

/-- A step adds to the history, and to what is known of the workers. -/
theorem Step.appends (h : d.Step d') :
    (∃ more, d'.acts = d.acts ++ more) ∧ ∃ later, d'.history = d.history ++ later := by
  cases h with
  | party t ends =>
    refine ⟨⟨[], (List.append_nil _).symm⟩, ?_⟩
    obtain ⟨-, hhistory⟩ | ⟨i, β, st, next, -, -, ht⟩ := d.toSession.turn_cases t
    · exact ⟨[], by simpa using hhistory⟩
    · exact ⟨[⟨β, st⟩], by simp [ht, Session.perform, Session.goOn]⟩
  | worker w d' goes =>
    cases goes with
    | slip p slips => exact ⟨⟨[], (List.append_nil _).symm⟩, [], (List.append_nil _).symm⟩
    | access now a p moves => exact ⟨⟨_, rfl⟩, _, rfl⟩

theorem ClaimedBy.step {w : ω} {runId : String} (h : d.ClaimedBy s w runId) (hstep : d.Step d') :
    d'.ClaimedBy s w runId := by
  obtain ⟨⟨more, hacts⟩, later, hhistory⟩ := hstep.appends
  exact h.append hacts hhistory

theorem Accounted.step (h : d.Accounted s) (hs : s.RunsKeyed) (hstep : d.Step d') :
    d'.Accounted s := by
  cases hstep with
  | party t ends =>
    have hturned : (d.turn {} (.party t)).Accounted s := h.turn hs ends
    exact hturned
  | worker w d' goes =>
    cases goes with
    | slip p slips => exact h.lapse slips.lapses
    | access now a p moves => exact h.moves hs moves

/-- What a worker holds after a step it held before, or nobody has claimed it before. -/
theorem Accounted.held_of_step (h : d.Accounted s) (hs : s.RunsKeyed) (hstep : d.Step d') {w : ω}
    {run : Run} (hrun : (d'.worker w).held? = some run) :
    (d.worker w).held? = some run ∨ ∀ k, ¬ d.ClaimedBy s k run.id := by
  cases hstep with
  | party t ends => exact Or.inl hrun
  | worker v d' goes =>
    revert run
    cases goes with
    | slip p slips =>
      exact (Function.forall_update_iff d.worker fun w q => ∀ {run : Run}, q.held? = some run →
        (d.worker w).held? = some run ∨ ∀ k, ¬ d.ClaimedBy s k run.id).2
        ⟨fun hrun => Or.inl (slips.lapses.held _ hrun), fun k _ _ hrun => Or.inl hrun⟩ w
    | access now a p moves =>
      refine (Function.forall_update_iff d.worker fun w q => ∀ {run : Run}, q.held? = some run →
        (d.worker w).held? = some run ∨ ∀ k, ¬ d.ClaimedBy s k run.id).2
        ⟨fun hrun => ?_, fun k _ _ hrun => Or.inl hrun⟩ w
      refine (moves.claims_of_held hrun).imp_right fun hclaims k hclaimed => ?_
      exact h.not_claims_again hs hclaimed (moves.endsRuns (h.ends v)) hclaims

/-! ### What workers hold is as it is stored -/

/-- **What workers hold is as it is stored**: it was going, and at some moment its row was as it
is. -/
def Snapshots (s : Store) (d : Crew ι ω) : Prop :=
  ∀ w run, (d.worker w).held? = some run → s.WasGoing d.history run

omit [DecidableEq ι] [DecidableEq ω] in
theorem snapshots_opening (s : Store) : (opening s : Crew ι ω).Snapshots s := fun _ _ h => nomatch h

omit [DecidableEq ι] [DecidableEq ω] in
/-- A worker that wins a claim holds what the row of the run says right after it. -/
theorem Accounted.wasGoing_of_win (h : d.Accounted s) {w : ω} {now : Int} {run : Run}
    (hp : d.worker w = .claiming run) (hwon : (d.store.claim run.id now).1 = true) :
    s.WasGoing (d.history ++ [⟨Bool, .claim run.id now⟩]) (run.claimed now) := by
  obtain ⟨r, hr, hid, hqueued, hstarted⟩ := Store.exists_started_of_claim hwon
  have hdecode : r.decode = .ok run := (h.sees w run hp).decode r hr hid hqueued
  refine ⟨rfl, _, Nat.le_refl _, ?_⟩
  rw [Store.stage_length, Store.through_concat, ← h.tracked.store_eq,
    ← RunRow.eq_ofRun_of_decode (RunRow.decode_started hdecode now)]
  exact hstarted

/-- **What workers hold stays as it is stored.** -/
theorem Snapshots.step (h : d.Snapshots s) (haccounted : d.Accounted s) (hstep : d.Step d') :
    d'.Snapshots s := by
  obtain ⟨-, later, hhistory⟩ := hstep.appends
  have hkept {w : ω} {run : Run} (hrun : (d.worker w).held? = some run) :
      s.WasGoing d'.history run := by
    rw [hhistory]
    exact (h w run hrun).append later
  cases hstep with
  | party t ends => exact fun w run hrun => hkept hrun
  | worker w d' goes =>
    cases goes with
    | slip p slips =>
      exact (Function.forall_update_iff d.worker
        fun _ q => ∀ run, q.held? = some run → s.WasGoing d.history run).2
        ⟨fun run hrun => hkept (slips.lapses.held run hrun), fun k _ run hrun => hkept hrun⟩
    | access now a p moves =>
      refine (Function.forall_update_iff d.worker
        fun _ q => ∀ run, q.held? = some run → s.WasGoing (d.history ++ [a]) run).2
        ⟨fun run hrun => ?_, fun k _ run hrun => hkept hrun⟩
      generalize hp : d.worker w = before at moves
      cases moves with
      | win seen won =>
        cases hrun
        exact haccounted.wasGoing_of_win hp won
      | load job run' => exact hkept ((congrArg Phase.held? hp).trans hrun)
      | miss run' outcome ended => exact hkept ((congrArg Phase.held? hp).trans hrun)
      | _ => cases hrun

/-! ### Workers end a run once -/

/-- **A worker has let a run go**: it claimed it, and does not hold it any more. -/
structure LetGo (s : Store) (d : Crew ι ω) (w : ω) (runId : String) : Prop where
  /-- The worker claimed the run. -/
  claimed : d.ClaimedBy s w runId
  /-- The worker does not hold it. -/
  released : ∀ run, (d.worker w).held? = some run → run.id ≠ runId

/-- **What a worker has let go it does not get again.** -/
theorem LetGo.step {w : ω} {runId : String} (h : d.LetGo s w runId) (haccounted : d.Accounted s)
    (hs : s.RunsKeyed) (hstep : d.Step d') : d'.LetGo s w runId := by
  refine ⟨h.claimed.step hstep, fun run hrun => ?_⟩
  rcases haccounted.held_of_step hs hstep hrun with hbefore | hnew
  · exact h.released run hbefore
  · rintro rfl
    exact hnew w h.claimed

/-- The statement at a moment of the history was to end a run, by a worker. -/
def EndedAt (d : Crew ι ω) (w : ω) (k : Nat) (runId : String) : Prop :=
  (w, k) ∈ d.acts ∧ ∃ a, d.history[k]? = some a ∧ a.2.ended? = some runId

/-- What is ended after a step was ended before, or it is the run that the worker held until
then. -/
theorem Accounted.endedAt_of_step (h : d.Accounted s) (hstep : d.Step d') {w : ω} {k : Nat}
    {runId : String} (hk : d'.EndedAt w k runId) :
    d.EndedAt w k runId ∨ k = d.history.length ∧
      (∃ run, (d.worker w).held? = some run ∧ run.id = runId) ∧ (d'.worker w).held? = none := by
  obtain ⟨-, later, hhistory⟩ := hstep.appends
  obtain ⟨hacts, a, ha, hended⟩ := hk
  -- what was done before is in the history that was there before
  have hbefore (hold : (w, k) ∈ d.acts) : d.EndedAt w k runId := by
    have hlt : k < d.history.length := h.acts_lt _ hold
    rw [hhistory, List.getElem?_append_left hlt] at ha
    exact ⟨hold, a, ha, hended⟩
  cases hstep with
  | party t ends => exact Or.inl (hbefore hacts)
  | worker v d' goes =>
    cases goes with
    | slip p slips => exact Or.inl (hbefore hacts)
    | access now b p moves =>
      rcases List.mem_append.1 hacts with hold | hnew
      · exact Or.inl (hbefore hold)
      · cases List.mem_singleton.1 hnew
        have hlast : a = b := by simpa [move, answer, Session.perform] using ha.symm
        obtain ⟨hheld, hnone⟩ := moves.held_of_ended (hlast ▸ hended)
        exact Or.inr ⟨rfl, hheld, by simpa only [move, Function.update_self] using hnone⟩

/-- **Workers end a run once**: a worker has let go what it ended, and ended it at one moment
only. -/
structure EndsOnce (s : Store) (d : Crew ι ω) : Prop where
  /-- A worker has let go what it ended. -/
  letGo : ∀ w k runId, d.EndedAt w k runId → d.LetGo s w runId
  /-- A worker ends a run at one moment. -/
  unique : ∀ w j k runId, d.EndedAt w j runId → d.EndedAt w k runId → j = k

omit [DecidableEq ι] [DecidableEq ω] in
theorem endsOnce_opening (s : Store) : (opening s : Crew ι ω).EndsOnce s where
  letGo _ _ _ h := nomatch h.1
  unique _ _ _ _ h := nomatch h.1

/-- **Workers go on to end a run once.** -/
theorem EndsOnce.step (h : d.EndsOnce s) (haccounted : d.Accounted s) (hs : s.RunsKeyed)
    (hstep : d.Step d') : d'.EndsOnce s := by
  refine ⟨fun w k runId hk => ?_, fun w j k runId hj hk => ?_⟩
  · obtain hold | ⟨-, ⟨run, hrun, rfl⟩, hnone⟩ := haccounted.endedAt_of_step hstep hk
    · exact (h.letGo w k runId hold).step haccounted hs hstep
    · refine ⟨(haccounted.claimed w run hrun).step hstep, fun run' hrun' => ?_⟩
      rw [hnone] at hrun'
      cases hrun'
  · obtain hjold | ⟨rfl, ⟨run, hrun, hid⟩, -⟩ := haccounted.endedAt_of_step hstep hj <;>
      obtain hkold | ⟨rfl, ⟨run', hrun', hid'⟩, -⟩ := haccounted.endedAt_of_step hstep hk
    · exact h.unique w j k runId hjold hkold
    · exact absurd hid' ((h.letGo w j runId hjold).released run' hrun')
    · exact absurd hid ((h.letGo w k runId hkold).released run hrun)
    · rfl

end Crew

end Timetable
