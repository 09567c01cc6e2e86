/-
**Workers beside other parties.**

A crew is a session in which workers take runs from the queue, carry them out and store how they
ended, one access to the store at a time.  Where a worker stands is only known to the worker; this
module ties it to the store.  A worker that is about to claim a run has seen it, and what it saw
still holds; and a worker that holds a run is the one that claimed it, at a moment of the history
that everybody shares.  As no history holds two claims of one run, no two workers hold the same one.

Main definitions:

* `Phase.held?` — the run that a worker holds;
* `Phase.Moves` — **one access of a worker**, `Phase.Drifts` — what happens to it in between;
* `Phase.fail` — an access of a worker fails, or is given up;
* `Phase.Slips` — what happens to a worker between its accesses, or when one fails;
* `Crew`, `Crew.turn` — **workers beside other parties**;
* `Crew.ClaimedBy` — a run was claimed by a worker;
* `Crew.Accounted` — what every crew keeps.

Main results:

* `Crew.turn_cases` — what a turn can be;
* `Crew.Accounted.turn` — **every turn keeps a crew accounted**;
* `Crew.Accounted.holder_unique` — no two workers hold the same run.
-/

import Timetable.Proofs.ExclusiveClaims
import Timetable.Worker.Phase

set_option autoImplicit false
set_option relaxedAutoImplicit false

namespace Timetable

/-! ### Where a worker stands -/

namespace Phase

/-- **The run that a worker holds**: from its claim until its outcome is stored. -/
def held? : Phase → Option Run
  | loading run | executing _ run | storing _ run _ => some run
  | waiting | looking | claiming _ | notifying _ _ | gone => none

/-- The worker is about to store the outcome of a run. -/
def isStoring : Phase → Bool
  | storing _ _ _ => true
  | waiting | looking | claiming _ | loading _ | executing _ _ | notifying _ _ | gone => false

/-- The outcome that is about to be stored ends the run. -/
def EndsRun : Phase → Prop
  | storing _ _ outcome => outcome.status.isTerminal = true
  | _ => True

/-- **What happens to a worker between its accesses.** -/
inductive Drifts : Phase → Phase → Prop where
  /-- Nothing happens. -/
  | stay (p : Phase) : Drifts p p
  /-- The worker goes. -/
  | leave (p : Phase) (idle : p.held? = none) : Drifts p gone
  /-- The worker is to look for work. -/
  | wake : Drifts waiting looking
  /-- The task of the worker has returned. -/
  | complete (job : Job) (run : Run) (outcome : Outcome)
    (ended : outcome.status.isTerminal = true) :
    Drifts (executing job run) (storing (some job) run outcome)
  /-- Whoever was to be told has been told. -/
  | told (job : Job) (run : Run) : Drifts (notifying job run) looking

theorem drifts_wake (stopping : Bool) (p : Phase) : p.Drifts (p.wake stopping) := by
  cases p with
  | waiting =>
    cases stopping
    · exact .wake
    · exact .leave _ rfl
  | _ => exact .stay _

theorem drifts_complete (settings : SchedulerSettings) (c : RunContext) (result : TaskResult)
    (p : Phase) : p.Drifts (p.complete settings c result) := by
  cases p with
  | executing job run => exact .complete job run _ (Outcome.isTerminal_classify settings c result)
  | _ => exact .stay _

theorem drifts_notified (p : Phase) : p.Drifts p.notified := by
  cases p with
  | notifying job run => exact .told job run
  | _ => exact .stay _

/-- Between its accesses a worker holds what it held. -/
theorem Drifts.held_eq {p p' : Phase} (h : p.Drifts p') : p'.held? = p.held? := by
  cases h with
  | leave _ idle => exact idle.symm
  | _ => rfl

/-- **A worker gets nothing**: it may let its run go, but holds no other one afterwards, and is not
about to claim another one. -/
structure Lapses (p p' : Phase) : Prop where
  /-- The worker held what it holds. -/
  held : ∀ run, p'.held? = some run → p.held? = some run
  /-- The worker is about to claim a run only if it was before. -/
  claiming : ∀ run, p' = .claiming run → p = .claiming run
  /-- What is about to be stored still ends the run. -/
  ends : p.EndsRun → p'.EndsRun

/-- Between its accesses a worker gets nothing. -/
theorem Drifts.lapses {p p' : Phase} (h : p.Drifts p') : p.Lapses p' := by
  refine ⟨fun run hrun => h.held_eq ▸ hrun, ?_, ?_⟩
  · cases h with
    | stay => exact fun _ hp => hp
    | _ => exact fun _ hp => (nomatch hp)
  · cases h with
    | stay => exact id
    | complete job run outcome ended => exact fun _ => ended
    | _ => exact fun _ => trivial

/-- **An access of a worker fails, or is given up.** -/
def fail (settings : SchedulerSettings) (e : AccessError) (p : Phase) : Phase :=
  (p.advance settings (fun _ (u : Unit) => (.error e, u)) false 0 ()).1

/-- **What happens to a worker between its accesses, or when one fails.** -/
inductive Slips : Phase → Phase → Prop where
  /-- It is something that happens between accesses. -/
  | drift {p p' : Phase} (drifts : p.Drifts p') : Slips p p'
  /-- The front of the queue could not be looked at. -/
  | look : Slips looking waiting
  /-- The run that was seen could not be claimed. -/
  | claim (run : Run) : Slips (claiming run) waiting
  /-- The job of the run could not be loaded. -/
  | load (run : Run) (outcome : Outcome) (ended : outcome.status.isTerminal = true) :
    Slips (loading run) (storing none run outcome)
  /-- The outcome could not be stored. -/
  | store (stored : Option Job) (run : Run) (outcome : Outcome) :
    Slips (storing stored run outcome) looking

theorem slips_fail (settings : SchedulerSettings) (e : AccessError) (p : Phase) :
    p.Slips (p.fail settings e) := by
  cases p with
  | looking => exact .look
  | claiming run => exact .claim run
  | loading run => exact .load run _ rfl
  | storing stored run outcome => exact .store stored run outcome
  | _ => exact .drift (.stay _)

/-- A worker gets nothing but by its accesses. -/
theorem Slips.lapses {p p' : Phase} (h : p.Slips p') : p.Lapses p' := by
  cases h with
  | drift drifts => exact drifts.lapses
  | load run outcome ended => exact ⟨fun _ h => h, fun _ h => (nomatch h), fun _ => ended⟩
  | _ => exact ⟨fun _ h => (nomatch h), fun _ h => (nomatch h), fun _ => trivial⟩

/-- What a worker holds it goes on to hold, unless it gives up storing an outcome. -/
theorem held_fail_eq {settings : SchedulerSettings} {e : AccessError} {p : Phase}
    (h : p.isStoring = false) : (p.fail settings e).held? = p.held? := by
  cases p with
  | storing stored run outcome => cases h
  | _ => rfl

/-- **One access of a worker** to a store, and where it stands afterwards. -/
inductive Moves (s : Store) (now : Int) : Phase → Access → Phase → Prop where
  /-- The worker sees a run at the front of the queue. -/
  | see (run : Run) (front : s.oldestQueued? = .ok (some run)) :
    Moves s now looking ⟨_, .oldestQueued⟩ (claiming run)
  /-- The worker sees no run. -/
  | idle : Moves s now looking ⟨_, .oldestQueued⟩ waiting
  /-- The worker claims the run that it saw. -/
  | win (run : Run) (won : (s.claim run.id now).1 = true) :
    Moves s now (claiming run) ⟨_, .claim run.id now⟩ (loading (run.claimed now))
  /-- The run that the worker saw waits no longer. -/
  | lose (run : Run) (lost : (s.claim run.id now).1 = false) :
    Moves s now (claiming run) ⟨_, .claim run.id now⟩ waiting
  /-- The worker loads the job of its run. -/
  | load (job : Job) (run : Run) :
    Moves s now (loading run) ⟨_, .jobWithId run.jobId⟩ (executing job run)
  /-- The job of the run is not there. -/
  | miss (run : Run) (outcome : Outcome) (ended : outcome.status.isTerminal = true) :
    Moves s now (loading run) ⟨_, .jobWithId run.jobId⟩ (storing none run outcome)
  /-- The worker stores the outcome, and tells about the run as it ended. -/
  | tell (job : Job) (run : Run) (outcome : Outcome)
    (written : (s.finish run.id outcome.status outcome.error outcome.summary now).1 = true) :
    Moves s now (storing (some job) run outcome)
      ⟨_, .finish run.id outcome.status outcome.error outcome.summary now⟩
      (notifying job (run.finished outcome now))
  /-- The worker stores the outcome and looks for work. -/
  | rest (stored : Option Job) (run : Run) (outcome : Outcome) :
    Moves s now (storing stored run outcome)
      ⟨_, .finish run.id outcome.status outcome.error outcome.summary now⟩ looking

namespace Moves

variable {s : Store} {now : Int} {p p' : Phase} {a : Access}

theorem endsRuns (h : Moves s now p a p') (hp : p.EndsRun) : a.2.EndsRuns := by
  cases h with
  | tell job run outcome written => exact hp
  | rest stored run outcome => exact hp
  | _ => trivial

theorem endsRun (h : Moves s now p a p') : p'.EndsRun := by
  cases h with
  | miss run outcome ended => exact ended
  | _ => trivial

/-- A worker that is about to claim a run has just seen it. -/
theorem shows {run : Run} (h : Moves s now p a (.claiming run)) (hs : s.RunsKeyed) :
    (a.apply s).Shows run := by
  cases h with
  | see run front => exact hs.shows_of_oldestQueued front

/-- A worker holds what it held, or what it claims. -/
theorem claims_of_held {run : Run} (h : Moves s now p a p') (hrun : p'.held? = some run) :
    p.held? = some run ∨ a.2.Claims run.id s := by
  cases h with
  | win seen won =>
    cases hrun
    exact Or.inr ⟨rfl, won⟩
  | load job run' => exact Or.inl hrun
  | miss run' outcome ended => exact Or.inl hrun
  | _ => cases hrun

end Moves

end Phase

/-! ### Crews -/

/-- **Workers beside other parties.** -/
structure Crew (ι ω : Type) extends Session ι where
  /-- Where every worker stands. -/
  worker : ω → Phase
  /-- Which worker performed the statement at which moment. -/
  acts : List (ω × Nat)

namespace Crew

/-- **A turn** of a crew. -/
inductive Turn (ι ω : Type) where
  /-- A party other than the workers takes its turn. -/
  | party (t : Timetable.Turn ι)
  /-- A worker stops waiting. -/
  | wake (w : ω) (stopping : Bool)
  /-- A worker makes its next access at a time. -/
  | work (w : ω) (stopping : Bool) (now : Int)
  /-- The next access of a worker fails, or is given up. -/
  | fail (w : ω) (e : AccessError)
  /-- The task of a worker returns. -/
  | complete (w : ω) (c : RunContext) (result : TaskResult)
  /-- Whoever a worker was to tell has been told. -/
  | notified (w : ω)

/-- The parties other than the workers end runs only in a status that ends them. -/
def Turn.EndsRuns {ι ω : Type} : Turn ι ω → Prop
  | party t => t.EndsRuns
  | _ => True

/-- The worker whose access fails in a turn. -/
def Turn.failing? {ι ω : Type} : Turn ι ω → Option ω
  | fail w _ => some w
  | _ => none

variable {ι ω : Type}

/-- A store before anybody has done anything; the workers wait. -/
def opening (s : Store) : Crew ι ω :=
  { Session.opening s with worker := fun _ => .waiting, acts := [] }

/-- A statement of a worker is answered. -/
def answer (w : ω) {γ : Type} (st : Statement γ) (d : Crew ι ω) :
    Except AccessError γ × Crew ι ω :=
  ((st.run d.store).1,
    { d with toSession := d.toSession.perform st, acts := d.acts ++ [(w, d.history.length)] })

/-- A worker moves on. -/
def move [DecidableEq ω] (d : Crew ι ω) (w : ω) (p : Phase) : Crew ι ω :=
  { d with worker := Function.update d.worker w p }

/-- **A turn is taken.** -/
def turn [DecidableEq ι] [DecidableEq ω] (settings : SchedulerSettings) (d : Crew ι ω) :
    Turn ι ω → Crew ι ω
  | .party t => { d with toSession := d.toSession.turn t }
  | .wake w stopping => d.move w ((d.worker w).wake stopping)
  | .work w stopping now =>
    let moved := (d.worker w).advance settings (answer w) stopping now d
    moved.2.move w moved.1
  | .fail w e => d.move w ((d.worker w).fail settings e)
  | .complete w c result => d.move w ((d.worker w).complete settings c result)
  | .notified w => d.move w (d.worker w).notified

variable {settings : SchedulerSettings} {s : Store} {d : Crew ι ω}

/-- **What a worker does when its turn comes**: no access, or one. -/
theorem advance_cases (settings : SchedulerSettings) (d : Crew ι ω) (w : ω) (stopping : Bool)
    (now : Int) (p : Phase) :
    (∃ p', p.Drifts p' ∧ p.advance settings (answer w) stopping now d = (p', d)) ∨
      ∃ (a : Access) (p' : Phase), p.Moves d.store now a p' ∧
        p.advance settings (answer w) stopping now d = (p', (answer w a.2 d).2) := by
  cases p with
  | looking =>
    cases stopping with
    | true => exact Or.inl ⟨.gone, .leave _ rfl, rfl⟩
    | false =>
      cases hfront : d.store.oldestQueued? with
      | error e =>
        refine Or.inr ⟨⟨_, .oldestQueued⟩, .waiting, .idle, ?_⟩
        simp [Phase.advance, answer, Statement.run, Statement.readRuns, hfront, Except.mapError]
      | ok found =>
        cases found with
        | none =>
          refine Or.inr ⟨⟨_, .oldestQueued⟩, .waiting, .idle, ?_⟩
          simp [Phase.advance, answer, Statement.run, Statement.readRuns, hfront, Except.mapError]
        | some run =>
          refine Or.inr ⟨⟨_, .oldestQueued⟩, .claiming run, .see run hfront, ?_⟩
          simp [Phase.advance, answer, Statement.run, Statement.readRuns, hfront, Except.mapError]
  | claiming run =>
    cases hwon : (d.store.claim run.id now).1 with
    | true =>
      refine Or.inr ⟨⟨_, .claim run.id now⟩, .loading (run.claimed now), .win run hwon, ?_⟩
      simp [Phase.advance, answer, Statement.run, hwon]
    | false =>
      refine Or.inr ⟨⟨_, .claim run.id now⟩, .waiting, .lose run hwon, ?_⟩
      simp [Phase.advance, answer, Statement.run, hwon]
  | loading run =>
    cases hjob : d.store.jobWithId? run.jobId with
    | some job =>
      refine Or.inr ⟨⟨_, .jobWithId run.jobId⟩, .executing job run, .load job run, ?_⟩
      simp [Phase.advance, answer, Statement.run, hjob]
    | none =>
      refine Or.inr ⟨⟨_, .jobWithId run.jobId⟩, _, .miss run (.withoutJob settings
        (Fault.jobNotFoundMessage run.jobId)) rfl, ?_⟩
      simp [Phase.advance, answer, Statement.run, hjob]
  | storing stored run outcome =>
    cases hwritten :
        (d.store.finish run.id outcome.status outcome.error outcome.summary now).1 with
    | true =>
      cases stored with
      | some job =>
        refine Or.inr ⟨⟨_, .finish run.id outcome.status outcome.error outcome.summary now⟩,
          _, .tell job run outcome hwritten, ?_⟩
        simp [Phase.advance, answer, Statement.run, hwritten]
      | none =>
        refine Or.inr ⟨⟨_, .finish run.id outcome.status outcome.error outcome.summary now⟩,
          _, .rest none run outcome, ?_⟩
        simp [Phase.advance, answer, Statement.run, hwritten]
    | false =>
      refine Or.inr ⟨⟨_, .finish run.id outcome.status outcome.error outcome.summary now⟩,
        _, .rest stored run outcome, ?_⟩
      simp [Phase.advance, answer, Statement.run, hwritten]
  | _ => exact Or.inl ⟨_, .stay _, rfl⟩

/-- **What a turn can be**: one of another party, something that happens to a worker between its
accesses, an access of a worker that fails, or one that is made. -/
theorem turn_cases [DecidableEq ι] [DecidableEq ω] (settings : SchedulerSettings) (d : Crew ι ω)
    (t : Turn ι ω) :
    (∃ u, t = .party u ∧ d.turn settings t = { d with toSession := d.toSession.turn u }) ∨
      (∃ w p, (d.worker w).Drifts p ∧ d.turn settings t = d.move w p) ∨
      (∃ w e, t = .fail w e ∧ d.turn settings t = d.move w ((d.worker w).fail settings e)) ∨
      ∃ (w : ω) (now : Int) (a : Access) (p : Phase), (d.worker w).Moves d.store now a p ∧
        d.turn settings t = (answer w a.2 d).2.move w p := by
  cases t with
  | party u => exact Or.inl ⟨u, rfl, rfl⟩
  | wake w stopping => exact Or.inr (Or.inl ⟨w, _, Phase.drifts_wake stopping _, rfl⟩)
  | work w stopping now =>
    simp only [turn]
    obtain ⟨p, hdrifts, hmoved⟩ | ⟨a, p, hmoves, hmoved⟩ :=
      advance_cases settings d w stopping now (d.worker w)
    · exact Or.inr (Or.inl ⟨w, p, hdrifts, by rw [hmoved]⟩)
    · exact Or.inr (Or.inr (Or.inr ⟨w, now, a, p, hmoves, by rw [hmoved]⟩))
  | fail w e => exact Or.inr (Or.inr (Or.inl ⟨w, e, rfl, rfl⟩))
  | complete w c result =>
    exact Or.inr (Or.inl ⟨w, _, Phase.drifts_complete settings c result _, rfl⟩)
  | notified w => exact Or.inr (Or.inl ⟨w, _, Phase.drifts_notified _, rfl⟩)

/-! ### What every crew keeps -/

/-- **A run was claimed by a worker.** -/
def ClaimedBy (s : Store) (d : Crew ι ω) (w : ω) (runId : String) : Prop :=
  ∃ k, (w, k) ∈ d.acts ∧ s.ClaimedAt d.history k runId

/-- A claim of a worker stays one while the history goes on. -/
theorem ClaimedBy.append {w : ω} {runId : String} (h : d.ClaimedBy s w runId) {e : Crew ι ω}
    {more : List (ω × Nat)} {later : List Access} (hacts : e.acts = d.acts ++ more)
    (hhistory : e.history = d.history ++ later) : e.ClaimedBy s w runId := by
  obtain ⟨k, hk, hclaimed⟩ := h
  exact ⟨k, hacts ▸ List.mem_append_left _ hk, hhistory ▸ hclaimed.append later⟩

/-- **What every crew keeps**: the history that everybody shares leads to the store, what workers
have seen still holds, and what they hold they have claimed. -/
structure Accounted (s : Store) (d : Crew ι ω) : Prop where
  /-- The history leads from the first store to the present one. -/
  tracked : d.toSession.Tracked s
  /-- What a worker is about to claim is what it saw. -/
  sees : ∀ w run, d.worker w = .claiming run → d.store.Shows run
  /-- What a worker is about to store ends its run. -/
  ends : ∀ w, (d.worker w).EndsRun
  /-- Workers have only done what was done. -/
  acts_lt : ∀ x ∈ d.acts, x.2 < d.history.length
  /-- No two workers did the same thing. -/
  acts_once : d.acts.Pairwise fun x y => x.2 < y.2
  /-- What a worker holds it has claimed. -/
  claimed : ∀ w run, (d.worker w).held? = some run → d.ClaimedBy s w run.id

theorem accounted_opening (s : Store) : (opening s : Crew ι ω).Accounted s where
  tracked := Session.tracked_opening s
  sees _ _ h := nomatch h
  ends _ := trivial
  acts_lt _ hx := nomatch hx
  acts_once := List.Pairwise.nil
  claimed _ _ h := nomatch h

namespace Accounted

/-- A run was claimed by one worker at most. -/
theorem claimedBy_unique (h : d.Accounted s) (hs : s.RunsKeyed) {w w' : ω} {runId : String}
    (hw : d.ClaimedBy s w runId) (hw' : d.ClaimedBy s w' runId) : w = w' := by
  obtain ⟨j, hj, hclaimed⟩ := hw
  obtain ⟨k, hk, hclaimed'⟩ := hw'
  obtain rfl := hs.claimedAt_unique h.tracked.ends hclaimed hclaimed'
  have hmoments : (d.acts.map (·.2)).Nodup :=
    List.pairwise_map.2 (h.acts_once.imp fun hlt => Nat.ne_of_lt hlt)
  exact congrArg Prod.fst (List.inj_on_of_nodup_map hmoments hj hk rfl)

/-- **No two workers hold the same run.** -/
theorem holder_unique (h : d.Accounted s) (hs : s.RunsKeyed) {w w' : ω} {run run' : Run}
    (hw : (d.worker w).held? = some run) (hw' : (d.worker w').held? = some run')
    (hid : run'.id = run.id) : w' = w :=
  h.claimedBy_unique hs (hid ▸ h.claimed w' run' hw') (h.claimed w run hw)

/-- A run that a worker has claimed is not claimed again. -/
theorem not_claims_again (h : d.Accounted s) (hs : s.RunsKeyed) {w : ω} {runId : String}
    (hclaimed : d.ClaimedBy s w runId) {a : Access} (hends : a.2.EndsRuns) :
    ¬ a.2.Claims runId d.store := by
  intro hclaims
  obtain ⟨k, -, hk⟩ := hclaimed
  have hagain : s.ClaimedAt (d.history ++ [a]) d.history.length runId := by
    refine ⟨a, by simp, ?_⟩
    rwa [Store.stage_append (Nat.le_refl _), Store.stage_length, ← h.tracked.store_eq]
  have hall : ∀ b ∈ d.history ++ [a], b.2.EndsRuns :=
    List.forall_mem_append.2 ⟨h.tracked.ends, List.forall_mem_singleton.2 hends⟩
  have hlt := hk.lt_length
  have heq := hs.claimedAt_unique hall (hk.append [a]) hagain
  omega

/-- When the others do something, a crew stays accounted. -/
theorem session (h : d.Accounted s) {e : Session ι} (htracked : e.Tracked s)
    (hcases : (e.store = d.store ∧ e.history = d.history) ∨
      ∃ a : Access, a.2.EndsRuns ∧ e.store = a.apply d.store ∧ e.history = d.history ++ [a]) :
    ({ d with toSession := e } : Crew ι ω).Accounted s := by
  have hlater : ∃ later, e.history = d.history ++ later := by
    rcases hcases with ⟨-, hhistory⟩ | ⟨a, -, -, hhistory⟩
    · exact ⟨[], by rw [hhistory, List.append_nil]⟩
    · exact ⟨[a], hhistory⟩
  obtain ⟨later, hhistory⟩ := hlater
  refine ⟨htracked, fun w run hw => ?_, h.ends, fun x hx => ?_, h.acts_once, fun w run hw => ?_⟩
  · rcases hcases with ⟨hstore, -⟩ | ⟨a, hends, hstore, -⟩
    · rw [hstore]
      exact h.sees w run hw
    · rw [hstore]
      exact Statement.shows_run hends (h.sees w run hw)
  · have hlt := h.acts_lt x hx
    simp only [hhistory, List.length_append]
    omega
  · exact (h.claimed w run hw).append (List.append_nil _).symm hhistory

/-- A worker that gets nothing leaves a crew accounted. -/
theorem lapse [DecidableEq ω] (h : d.Accounted s) {w : ω} {p : Phase}
    (hp : (d.worker w).Lapses p) : (d.move w p).Accounted s where
  tracked := h.tracked
  sees := by
    refine (Function.forall_update_iff d.worker
      fun _ q => ∀ run, q = .claiming run → d.store.Shows run).2
      ⟨fun run hrun => ?_, fun k _ => h.sees k⟩
    exact h.sees w run (hp.claiming run hrun)
  ends := (Function.forall_update_iff d.worker fun _ q => q.EndsRun).2
    ⟨hp.ends (h.ends w), fun k _ => h.ends k⟩
  acts_lt := h.acts_lt
  acts_once := h.acts_once
  claimed := by
    refine (Function.forall_update_iff d.worker
      fun k q => ∀ run, q.held? = some run → d.ClaimedBy s k run.id).2
      ⟨fun run hrun => ?_, fun k _ => h.claimed k⟩
    exact h.claimed w run (hp.held run hrun)

/-- **An access of a worker keeps a crew accounted.** -/
theorem moves [DecidableEq ω] (h : d.Accounted s) (hs : s.RunsKeyed) {w : ω} {now : Int}
    {a : Access} {p : Phase} (hp : (d.worker w).Moves d.store now a p) :
    ((answer w a.2 d).2.move w p).Accounted s := by
  have hends : a.2.EndsRuns := hp.endsRuns (h.ends w)
  have hkeyed : d.store.RunsKeyed := h.tracked.runsKeyed hs
  refine ⟨h.tracked.perform hends, ?_, ?_, fun x hx => ?_, ?_, ?_⟩
  · refine (Function.forall_update_iff d.worker
      fun _ q => ∀ run, q = .claiming run → (a.apply d.store).Shows run).2
      ⟨fun run hrun => ?_, fun k _ run hk => ?_⟩
    · exact (hrun ▸ hp).shows hkeyed
    · exact Statement.shows_run hends (h.sees k run hk)
  · exact (Function.forall_update_iff d.worker fun _ q => q.EndsRun).2
      ⟨hp.endsRun, fun k _ => h.ends k⟩
  · simp only [move, answer, Session.perform, List.length_append, List.length_singleton]
    rcases List.mem_append.1 hx with hold | hnew
    · exact Nat.lt_succ_of_lt (h.acts_lt x hold)
    · obtain rfl := List.mem_singleton.1 hnew
      exact Nat.lt_succ_self _
  · refine List.pairwise_append.2 ⟨h.acts_once, List.pairwise_singleton _ _, fun x hx y hy => ?_⟩
    obtain rfl := List.mem_singleton.1 hy
    exact h.acts_lt x hx
  · have hkept {k : ω} {run : Run} (hrun : (d.worker k).held? = some run) :
        ((answer w a.2 d).2.move w p).ClaimedBy s k run.id := (h.claimed k run hrun).append rfl rfl
    refine (Function.forall_update_iff d.worker
      fun k q => ∀ run, q.held? = some run → ((answer w a.2 d).2.move w p).ClaimedBy s k run.id).2
      ⟨fun run hrun => ?_, fun k _ run hk => hkept hk⟩
    rcases hp.claims_of_held hrun with hold | hclaims
    · exact hkept hold
    · -- the claim is the statement that the worker has just performed
      refine ⟨d.history.length, List.mem_append_right _ (List.mem_singleton.2 rfl), a, ?_, ?_⟩
      · simp [move, answer, Session.perform]
      · simp only [move, answer, Session.perform]
        rwa [Store.stage_append (Nat.le_refl _), Store.stage_length, ← h.tracked.store_eq]

/-- **Every turn keeps a crew accounted.** -/
theorem turn [DecidableEq ι] [DecidableEq ω] (h : d.Accounted s) (hs : s.RunsKeyed) {t : Turn ι ω}
    (ht : t.EndsRuns) :
    (d.turn settings t).Accounted s := by
  obtain ⟨u, rfl, hturn⟩ | ⟨w, p, hp, hturn⟩ | ⟨w, e, -, hturn⟩ | ⟨w, now, a, p, hp, hturn⟩ :=
    d.turn_cases settings t
  · rw [hturn]
    refine h.session (h.tracked.turn ht) ?_
    refine (d.toSession.turn_cases u).imp_right ?_
    rintro ⟨i, β, st, next, -, hrest, hu⟩
    have hi := h.tracked.rest i
    rw [hrest] at hi
    exact ⟨⟨β, st⟩, hi.1, by rw [hu]; rfl, by rw [hu]; rfl⟩
  · rw [hturn]
    exact h.lapse hp.lapses
  · rw [hturn]
    exact h.lapse (Phase.slips_fail settings e _).lapses
  · rw [hturn]
    exact h.moves hs hp

end Accounted

end Crew

end Timetable
