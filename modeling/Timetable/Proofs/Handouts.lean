/-
**Runs are handed out once, and told about as they were stored.**

A worker hands the task of the run that it claimed to a runner, stores how the run ended, and tells
a notifier about the run as it believes it to be.  This module follows what the workers of any
number of pools hand to runners and to notifiers while others work on the same store.  As a run is
claimed once, it is handed to one runner; and a notifier is told about what the worker has just
stored, column by column, or about nothing.

Main definitions:

* `Crew.Event`, `Crew.event` — what happens to a worker;
* `Pools`, `Pools.turn` — **workers of any pools, with what they hand out**;
* `Pools.TasksOnce` — runs are handed to runners once;
* `Pools.Committed`, `Pools.NoticesCommitted` — runs were stored as they are told about;
* `Pools.GivenUp` — a worker has given up to end a run;
* `Pools.Sound` — what the pools keep.

Main results:

* `Pools.TasksOnce.goOn`, `Pools.NoticesCommitted.goOn` — whatever a worker does keeps these;
* `Pools.Sound.turn` — **every turn leaves the pools sound**;
* `Pools.handed_out_once` — **every run is handed out once, and told about as it was stored**.
-/

import Timetable.Proofs.Snapshots

set_option autoImplicit false
set_option relaxedAutoImplicit false

namespace Timetable

/-! ### What is handed out -/

namespace Phase

/-- What a worker hands to a runner as it moves on. -/
def task? : Phase → Phase → Option (Job × Run)
  | loading _, executing job run => some (job, run)
  | _, _ => none

/-- What a worker tells a notifier about as it moves on. -/
def notice? : Phase → Phase → Option (Job × Run)
  | storing _ _ _, notifying job run => some (job, run)
  | _, _ => none

/-- A worker hands out nothing but after an access. -/
theorem Slips.hands_nothing {p p' : Phase} (h : p.Slips p') :
    p.task? p' = none ∧ p.notice? p' = none := by
  cases h with
  | drift drifts =>
    cases drifts with
    | stay => cases p <;> exact ⟨rfl, rfl⟩
    | leave => cases p <;> exact ⟨rfl, rfl⟩
    | _ => exact ⟨rfl, rfl⟩
  | _ => exact ⟨rfl, rfl⟩

/-- A worker hands out the run whose job it loaded. -/
theorem Moves.task {s : Store} {now : Int} {p p' : Phase} {a : Access} (h : Moves s now p a p')
    {job : Job} {run : Run} (hfound : p.task? p' = some (job, run)) :
    p = loading run ∧ p' = executing job run := by
  cases h with
  | load job' run' =>
    cases hfound
    exact ⟨rfl, rfl⟩
  | _ => cases hfound

/-- A worker tells about a run as it has just been stored. -/
theorem Moves.notice {s : Store} {now : Int} {p p' : Phase} {a : Access} (h : Moves s now p a p')
    {job : Job} {run : Run} (hfound : p.notice? p' = some (job, run)) :
    ∃ (before : Run) (outcome : Outcome), p = storing (some job) before outcome ∧
      run = before.finished outcome now ∧
      a = ⟨_, .finish before.id outcome.status outcome.error outcome.summary now⟩ ∧
      (s.finish before.id outcome.status outcome.error outcome.summary now).1 = true := by
  cases h with
  | tell job' before outcome written =>
    cases hfound
    exact ⟨before, outcome, rfl, rfl, rfl, written⟩
  | _ => cases hfound

end Phase

/-- A run that is going ends, and its row is that of the finished run. -/
theorem Store.finished_mem_finish {s : Store} {run : Run} (outcome : Outcome) (now : Int)
    (hrun : .ofRun run ∈ s.runs) (hgoing : (RunRow.ofRun run).hasStatus .running = true) :
    .ofRun (run.finished outcome now) ∈
      (s.finish run.id outcome.status outcome.error outcome.summary now).2.runs := by
  have hrunning : isRunning run.id (.ofRun run) = true := by
    simpa only [isRunning, Bool.and_eq_true, beq_iff_eq] using ⟨rfl, hgoing⟩
  refine List.mem_map.2 ⟨.ofRun run, hrun, ?_⟩
  rw [if_pos hrunning]
  rfl

namespace Crew

/-- **What happens to a worker.** -/
inductive Event where
  /-- It stops waiting. -/
  | wake (stopping : Bool)
  /-- It makes its next access at a time. -/
  | work (stopping : Bool) (now : Int)
  /-- Its next access fails, or is given up. -/
  | fail (e : AccessError)
  /-- Its task returns. -/
  | complete (c : RunContext) (result : TaskResult)
  /-- Whoever it was to tell has been told. -/
  | notified

/-- The run whose outcome is given up. -/
def Event.abandoned? : Event → Phase → Option Run
  | .fail _, .storing _ run _ => some run
  | _, _ => none

variable {ι ω : Type} [DecidableEq ι] [DecidableEq ω] {s : Store} {d : Crew ι ω}

/-- **Something happens to a worker.** -/
def event (settings : SchedulerSettings) (d : Crew ι ω) (w : ω) : Event → Crew ι ω
  | .wake stopping => d.turn settings (.wake w stopping)
  | .work stopping now => d.turn settings (.work w stopping now)
  | .fail e => d.turn settings (.fail w e)
  | .complete c result => d.turn settings (.complete w c result)
  | .notified => d.turn settings (.notified w)

/-- Whatever happens to a worker, it does what workers can do. -/
theorem goes_event (settings : SchedulerSettings) (d : Crew ι ω) (w : ω) (e : Event) :
    d.Goes w (d.event settings w e) := by
  cases e with
  | wake stopping => exact .slip _ (.drift (Phase.drifts_wake stopping _))
  | fail e => exact .slip _ (Phase.slips_fail settings e _)
  | complete c result => exact .slip _ (.drift (Phase.drifts_complete settings c result _))
  | notified => exact .slip _ (.drift (Phase.drifts_notified _))
  | work stopping now =>
    obtain ⟨p, hdrifts, hmoved⟩ | ⟨a, p, hmoves, hmoved⟩ :=
      advance_cases settings d w stopping now (d.worker w)
    · simp only [event, turn, hmoved]
      exact .slip _ (.drift hdrifts)
    · simp only [event, turn, hmoved]
      exact .access now a p hmoves

omit [DecidableEq ι] in
theorem Goes.task {w : ω} {c : Crew ι ω} (h : d.Goes w c) {job : Job} {run : Run}
    (hfound : (d.worker w).task? (c.worker w) = some (job, run)) :
    d.worker w = .loading run ∧ c.worker w = .executing job run := by
  cases h with
  | slip p slips =>
    simp only [move, Function.update_self, slips.hands_nothing.1] at hfound
    cases hfound
  | access now a p moves =>
    simp only [move, Function.update_self] at hfound ⊢
    exact moves.task hfound

omit [DecidableEq ι] in
theorem Goes.notice {w : ω} {c : Crew ι ω} (h : d.Goes w c) {job : Job} {run : Run}
    (hfound : (d.worker w).notice? (c.worker w) = some (job, run)) :
    ∃ (now : Int) (before : Run) (outcome : Outcome),
      d.worker w = .storing (some job) before outcome ∧ run = before.finished outcome now ∧
      c.history = d.history ++
        [⟨_, .finish before.id outcome.status outcome.error outcome.summary now⟩] ∧
      c.acts = d.acts ++ [(w, d.history.length)] ∧
      (d.store.finish before.id outcome.status outcome.error outcome.summary now).1 = true := by
  cases h with
  | slip p slips =>
    simp only [move, Function.update_self, slips.hands_nothing.2] at hfound
    cases hfound
  | access now a p moves =>
    simp only [move, Function.update_self] at hfound
    obtain ⟨before, outcome, hbefore, hrun, rfl, hwritten⟩ := moves.notice hfound
    exact ⟨now, before, outcome, hbefore, hrun, rfl, rfl, hwritten⟩

omit [DecidableEq ι] in
/-- A worker is about to load a job if it was before, or has just claimed a run. -/
theorem Accounted.loading_of_goes (h : d.Accounted s) (hs : s.RunsKeyed) {w : ω} {c : Crew ι ω}
    (hgoes : d.Goes w c) {k : ω} {run : Run} (hk : c.worker k = .loading run) :
    d.worker k = .loading run ∨ ∀ w', ¬ d.ClaimedBy s w' run.id := by
  revert run
  cases hgoes with
  | slip p slips =>
    refine (Function.forall_update_iff d.worker fun k q => ∀ {run : Run}, q = .loading run →
      d.worker k = .loading run ∨ ∀ w', ¬ d.ClaimedBy s w' run.id).2
      ⟨fun hrun => Or.inl ?_, fun k _ _ hrun => Or.inl hrun⟩ k
    subst hrun
    generalize d.worker w = before at slips
    cases slips with
    | drift drifts =>
      cases drifts with
      | stay => rfl
  | access now a p moves =>
    refine (Function.forall_update_iff d.worker fun k q => ∀ {run : Run}, q = .loading run →
      d.worker k = .loading run ∨ ∀ w', ¬ d.ClaimedBy s w' run.id).2
      ⟨fun hrun => Or.inr fun w' hclaimed => ?_, fun k _ _ hrun => Or.inl hrun⟩ k
    subst hrun
    have hends : a.2.EndsRuns := moves.endsRuns (h.ends w)
    generalize d.worker w = before at moves
    cases moves with
    | win seen won => exact h.not_claims_again hs hclaimed hends ⟨rfl, won⟩

end Crew

/-- **Something that a worker hands out.** -/
structure Handout (ω : Type) where
  /-- Who hands it out. -/
  worker : ω
  /-- The job of the run. -/
  job : Job
  /-- The run. -/
  run : Run
  /-- How many statements had been performed by then. -/
  moment : Nat

/-- **Workers of any pools**, beside other parties.  A pool without a notifier is one whose notifier
does nothing. -/
structure Pools (ι ω : Type) extends Crew ι ω where
  /-- What was handed to runners. -/
  tasks : List (Handout ω)
  /-- What notifiers were told. -/
  notices : List (Handout ω)
  /-- The runs whose outcomes were given up, and by whom. -/
  abandoned : List (ω × String)

namespace Pools

/-- **A turn** of the pools. -/
inductive Turn (ι ω : Type) where
  /-- A party other than the workers takes its turn. -/
  | party (t : Timetable.Turn ι)
  /-- Something happens to a worker. -/
  | worker (w : ω) (e : Crew.Event)

/-- The parties other than the workers end runs only in a status that ends them. -/
def Turn.EndsRuns {ι ω : Type} : Turn ι ω → Prop
  | party t => t.EndsRuns
  | worker _ _ => True

variable {ι ω : Type}

/-- A store before anybody has done anything; nothing has been handed out. -/
def opening (s : Store) : Pools ι ω :=
  { Crew.opening s with tasks := [], notices := [], abandoned := [] }

/-- What a worker handed out as it moved on is kept. -/
def goOn (d : Pools ι ω) (w : ω) (e : Crew.Event) (c : Crew ι ω) : Pools ι ω :=
  let handout (x : Job × Run) : Handout ω := ⟨w, x.1, x.2, c.history.length⟩
  { toCrew := c
    tasks := d.tasks ++ ((d.worker w).task? (c.worker w)).toList.map handout
    notices := d.notices ++ ((d.worker w).notice? (c.worker w)).toList.map handout
    abandoned := d.abandoned ++ (e.abandoned? (d.worker w)).toList.map fun run => (w, run.id) }

variable [DecidableEq ι] [DecidableEq ω]

/-- **A turn is taken**; every worker has the settings of its pool. -/
def turn (settings : ω → SchedulerSettings) (d : Pools ι ω) : Turn ι ω → Pools ι ω
  | .party t => { d with toSession := d.toSession.turn t }
  | .worker w e => d.goOn w e (d.toCrew.event (settings w) w e)

/-- Turns are taken one after the other. -/
def play (settings : ω → SchedulerSettings) (d : Pools ι ω) (turns : List (Turn ι ω)) : Pools ι ω :=
  turns.foldl (turn settings) d

variable {settings : ω → SchedulerSettings} {s : Store} {d : Pools ι ω}

/-! ### Runs are handed to runners once -/

/-- **Runs are handed to runners once**: what was handed to a runner its worker claimed, no run was
handed out twice, and what is about to be was not before. -/
structure TasksOnce (s : Store) (d : Pools ι ω) : Prop where
  /-- What was handed to a runner its worker claimed. -/
  claimed : ∀ x ∈ d.tasks, d.ClaimedBy s x.worker x.run.id
  /-- No run was handed to runners twice. -/
  nodup : (d.tasks.map (·.run.id)).Nodup
  /-- A run whose job is yet to be loaded was not handed out before. -/
  fresh : ∀ w run, d.worker w = .loading run → run.id ∉ d.tasks.map (·.run.id)

/-- **Whatever a worker does, runs are handed to runners once.** -/
theorem TasksOnce.goOn (h : d.TasksOnce s) (haccounted : d.Accounted s) (hs : s.RunsKeyed) {w : ω}
    {e : Crew.Event} {c : Crew ι ω} (hgoes : d.Goes w c) : (d.goOn w e c).TasksOnce s := by
  have hstep : d.Step c := .worker w c hgoes
  have hclaimed : ∀ x ∈ d.tasks, c.ClaimedBy s x.worker x.run.id :=
    fun x hx => (h.claimed x hx).step hstep
  have hfresh (k : ω) (run : Run) (hk : c.worker k = .loading run) :
      run.id ∉ d.tasks.map (·.run.id) := by
    rcases haccounted.loading_of_goes hs hgoes hk with hbefore | hnew
    · exact h.fresh k run hbefore
    · intro hmem
      obtain ⟨x, hx, hid⟩ := List.mem_map.1 hmem
      exact hnew x.worker (hid ▸ h.claimed x hx)
  cases hfound : (d.worker w).task? (c.worker w) with
  | none =>
    have htasks : (d.goOn w e c).tasks = d.tasks := by simp [Pools.goOn, hfound]
    exact ⟨htasks ▸ hclaimed, htasks ▸ h.nodup, htasks ▸ hfresh⟩
  | some found =>
    obtain ⟨job, run⟩ := found
    obtain ⟨hbefore, hafter⟩ := hgoes.task hfound
    have hrun : d.ClaimedBy s w run.id := haccounted.claimed w run (by rw [hbefore]; rfl)
    have htasks : (d.goOn w e c).tasks = d.tasks ++ [⟨w, job, run, c.history.length⟩] := by
      simp [Pools.goOn, hfound]
    refine ⟨?_, ?_, fun k run' hk hmem => ?_⟩
    · rw [htasks]
      exact List.forall_mem_append.2 ⟨hclaimed, List.forall_mem_singleton.2 (hrun.step hstep)⟩
    · rw [htasks, List.map_append]
      refine List.nodup_append'.2 ⟨h.nodup, List.nodup_singleton _, ?_⟩
      exact List.disjoint_singleton.2 (h.fresh w run hbefore)
    · rw [htasks, List.map_append] at hmem
      rcases List.mem_append.1 hmem with hold | hnew
      · exact hfresh k run' hk hold
      · -- the worker of the task has loaded its job, and nobody else holds the run
        have hid : run'.id = run.id := List.mem_singleton.1 hnew
        rcases haccounted.loading_of_goes hs hgoes hk with hloading | hnobody
        · obtain rfl : k = w := haccounted.holder_unique hs (by rw [hbefore]; rfl)
            (by rw [hloading]; rfl) hid
          rw [show c.worker k = .loading run' from hk] at hafter
          cases hafter
        · exact hnobody w (hid ▸ hrun)

/-! ### Notifiers are told about runs as they were stored -/

/-- **A run was stored as it is told about**: the statement at a moment found the run going and
ended it, and left its row as the run is; and this was right before. -/
structure Committed (s : Store) (d : Crew ι ω) (x : Handout ω) (k : Nat) (now : Int) : Prop where
  /-- It is told about right after the statement. -/
  moment_eq : x.moment = k + 1
  /-- The statement is one of the worker that tells about the run. -/
  acts : (x.worker, k) ∈ d.acts
  /-- The statement ends the run. -/
  statement : d.history[k]? =
    some ⟨Bool, .finish x.run.id x.run.status x.run.error x.run.resultSummary now⟩
  /-- The run was going before the statement. -/
  going : ∃ r ∈ (s.stage d.history k).runs, r.id = x.run.id ∧ r.hasStatus .running = true
  /-- After the statement the row of the run is as the run is. -/
  written : .ofRun x.run ∈ (s.stage d.history (k + 1)).runs
  /-- There is no other row of the run. -/
  unique : ∀ r ∈ (s.stage d.history (k + 1)).runs, r.id = x.run.id → r = .ofRun x.run

theorem Committed.step {c c' : Crew ι ω} {x : Handout ω} {k : Nat} {now : Int}
    (h : Committed s c x k now) (haccounted : c.Accounted s) (hstep : c.Step c') :
    Committed s c' x k now := by
  obtain ⟨⟨more, hacts⟩, later, hhistory⟩ := hstep.appends
  have hlt : k < c.history.length := haccounted.acts_lt _ h.acts
  refine ⟨h.moment_eq, ?_, ?_, ?_, ?_, ?_⟩
  · rw [hacts]
    exact List.mem_append_left _ h.acts
  · rw [hhistory, List.getElem?_append_left hlt]
    exact h.statement
  · rw [hhistory, Store.stage_append (Nat.le_of_lt hlt)]
    exact h.going
  · rw [hhistory, Store.stage_append hlt]
    exact h.written
  · rw [hhistory, Store.stage_append hlt]
    exact h.unique

omit [DecidableEq ι] [DecidableEq ω] in
theorem Committed.endedAt {c : Crew ι ω} {x : Handout ω} {k : Nat} {now : Int}
    (h : Committed s c x k now) : c.EndedAt x.worker k x.run.id :=
  ⟨h.acts, _, h.statement, rfl⟩

/-- What notifiers were told was stored, one after the other. -/
structure NoticesCommitted (s : Store) (d : Pools ι ω) : Prop where
  /-- What a notifier was told was stored. -/
  committed : ∀ x ∈ d.notices, ∃ k now, Committed s d.toCrew x k now
  /-- Notifiers were told one after the other. -/
  later : d.notices.Pairwise fun x y => x.moment < y.moment

/-- **What a worker tells about it has just stored.** -/
theorem committed_of_goes (haccounted : d.Accounted s) (hsnapshots : d.Snapshots s)
    (hs : s.RunsKeyed) {w : ω} {c : Crew ι ω} (hgoes : d.Goes w c) {job : Job} {run : Run}
    (hfound : (d.worker w).notice? (c.worker w) = some (job, run)) :
    c.history.length = d.history.length + 1 ∧
      ∃ now, Committed s c ⟨w, job, run, c.history.length⟩ d.history.length now := by
  obtain ⟨now, before, outcome, hbefore, rfl, hhistory, hacts, hwritten⟩ := hgoes.notice hfound
  have hheld : (d.worker w).held? = some before := by rw [hbefore]; rfl
  have hafter : c.Accounted s := haccounted.step hs (.worker w c hgoes)
  have hlength : c.history.length = d.history.length + 1 := by
    rw [hhistory, List.length_append, List.length_singleton]
  have hearlier : s.stage c.history d.history.length = d.store := by
    rw [hhistory, Store.stage_append (Nat.le_refl _), Store.stage_length,
      haccounted.tracked.store_eq]
  -- the row that was going is as the worker holds it
  obtain ⟨r, hr, hgoing⟩ := List.any_eq_true.1 hwritten
  simp only [Store.isRunning, Bool.and_eq_true, beq_iff_eq] at hgoing
  obtain rfl : r = .ofRun before := (hsnapshots w before hheld).eq_of_running hs
    haccounted.tracked.ends (haccounted.tracked.store_eq ▸ hr) hgoing.1 hgoing.2
  have hlater : .ofRun (before.finished outcome now) ∈
      (s.stage c.history (d.history.length + 1)).runs := by
    rw [Store.stage_succ (a := ⟨Bool, .finish before.id outcome.status outcome.error outcome.summary
      now⟩) (by simp [hhistory]), hearlier]
    exact Store.finished_mem_finish outcome now hr hgoing.2
  refine ⟨hlength, now, hlength, ?_, ?_, ?_, hlater, fun r' hr' hid => ?_⟩
  · simp [hacts]
  · simp [hhistory, Run.finished]
  · rw [hearlier]
    exact ⟨_, hr, hgoing⟩
  · exact (hs.stage hafter.tracked.ends _).row_unique hr' hlater hid

/-- **Whatever a worker does, notifiers are told about runs as they were stored.** -/
theorem NoticesCommitted.goOn (h : d.NoticesCommitted s) (haccounted : d.Accounted s)
    (hsnapshots : d.Snapshots s) (hs : s.RunsKeyed) {w : ω} {e : Crew.Event} {c : Crew ι ω}
    (hgoes : d.Goes w c) : (d.goOn w e c).NoticesCommitted s := by
  have hcommitted : ∀ x ∈ d.notices, ∃ k now, Committed s c x k now := by
    intro x hx
    obtain ⟨k, now, hk⟩ := h.committed x hx
    exact ⟨k, now, hk.step haccounted (.worker w c hgoes)⟩
  cases hfound : (d.worker w).notice? (c.worker w) with
  | none =>
    have hnotices : (d.goOn w e c).notices = d.notices := by simp [Pools.goOn, hfound]
    exact ⟨hnotices ▸ hcommitted, hnotices ▸ h.later⟩
  | some found =>
    obtain ⟨job, run⟩ := found
    obtain ⟨hlength, now, hnew⟩ := committed_of_goes haccounted hsnapshots hs hgoes hfound
    have hnotices : (d.goOn w e c).notices = d.notices ++ [⟨w, job, run, c.history.length⟩] := by
      simp [Pools.goOn, hfound]
    constructor
    · rw [hnotices]
      exact List.forall_mem_append.2 ⟨hcommitted, List.forall_mem_singleton.2 ⟨_, now, hnew⟩⟩
    · rw [hnotices]
      refine List.pairwise_append.2 ⟨h.later, List.pairwise_singleton _ _, fun x hx y hy => ?_⟩
      obtain rfl := List.mem_singleton.1 hy
      obtain ⟨k, now, hk⟩ := h.committed x hx
      have hlt : k < d.history.length := haccounted.acts_lt _ hk.acts
      simp only [hk.moment_eq, hlength]
      omega

omit [DecidableEq ι] [DecidableEq ω] in
/-- **A run is told about once**: what has been told about has ended, and is not going any more. -/
theorem NoticesCommitted.nodup (h : d.NoticesCommitted s) (haccounted : d.Accounted s)
    (hs : s.RunsKeyed) : (d.notices.map (·.run.id)).Nodup := by
  refine List.pairwise_map.2 (h.later.imp_of_mem fun {x y} hx hy hlt hid => ?_)
  obtain ⟨j, now, hj⟩ := h.committed x hx
  obtain ⟨k, later, hk⟩ := h.committed y hy
  obtain ⟨r, hr, hrid, hgoing⟩ := hk.going
  have hjk : j + 1 ≤ k := by
    rw [hj.moment_eq, hk.moment_eq] at hlt
    omega
  have hcourse : (RunRow.ofRun x.run).Course r :=
    hs.course_stage haccounted.tracked.ends hjk hj.written hr (hrid.trans hid.symm)
  have hterminal : x.run.status.isTerminal = true :=
    haccounted.tracked.ends _ (List.mem_of_getElem? hj.statement)
  have hsame : r = .ofRun x.run :=
    hcourse.eq_of_isOver ((RunRow.isOver_of_status rfl).trans hterminal)
  rw [hsame, RunRow.hasStatus_ofRun] at hgoing
  rw [of_decide_eq_true hgoing] at hterminal
  cases hterminal

/-! ### What was given up is told to nobody -/

/-- **A worker has given up to end a run**: it has let the run go, and has not ended it. -/
structure GivenUp (s : Store) (d : Crew ι ω) (w : ω) (runId : String) : Prop where
  /-- The worker has let the run go. -/
  letGo : d.LetGo s w runId
  /-- It has not ended it. -/
  never : ∀ k, ¬ d.EndedAt w k runId

/-- What a worker has given up it does not take up again. -/
theorem GivenUp.step {c c' : Crew ι ω} {w : ω} {runId : String} (h : GivenUp s c w runId)
    (haccounted : c.Accounted s) (hs : s.RunsKeyed) (hstep : c.Step c') :
    GivenUp s c' w runId := by
  refine ⟨h.letGo.step haccounted hs hstep, fun k hk => ?_⟩
  obtain hold | ⟨-, ⟨run, hrun, hid⟩, -⟩ := haccounted.endedAt_of_step hstep hk
  · exact h.never k hold
  · exact h.letGo.released run hrun hid

/-- A worker that cannot store an outcome gives it up. -/
theorem givenUp_event {c : Crew ι ω} (haccounted : c.Accounted s) (hends : c.EndsOnce s)
    (settings : SchedulerSettings) {w : ω} {e : Crew.Event} {run : Run}
    (hrun : e.abandoned? (c.worker w) = some run) : GivenUp s (c.event settings w e) w run.id := by
  have hstep : c.Step (c.event settings w e) := .worker w _ (c.goes_event settings w e)
  cases e with
  | fail e =>
    cases hp : c.worker w with
    | storing stored run' outcome =>
      rw [hp] at hrun
      cases hrun
      have hheld : (c.worker w).held? = some run := by rw [hp]; rfl
      have hnone : ((c.event settings w (.fail e)).worker w).held? = none := by
        simp only [Crew.event, Crew.turn, Crew.move, Function.update_self, hp]
        rfl
      refine ⟨⟨(haccounted.claimed w run hheld).step hstep, fun run' hrun' => ?_⟩, fun k hk => ?_⟩
      · rw [hnone] at hrun'
        cases hrun'
      · exact (hends.letGo w k run.id hk).released run hheld rfl
    | _ =>
      rw [hp] at hrun
      cases hrun
  | _ => cases hrun

/-! ### Every run of the pools -/

/-- **What the pools keep.** -/
structure Sound (s : Store) (d : Pools ι ω) : Prop where
  /-- The workers are accounted. -/
  accounted : d.Accounted s
  /-- What they hold is as it is stored. -/
  snapshots : d.Snapshots s
  /-- They end a run once. -/
  endsOnce : d.EndsOnce s
  /-- Runs are handed to runners once. -/
  tasksOnce : d.TasksOnce s
  /-- Notifiers are told about runs as they were stored. -/
  noticesCommitted : d.NoticesCommitted s
  /-- What was given up is not taken up again. -/
  givenUp : ∀ x ∈ d.abandoned, GivenUp s d.toCrew x.1 x.2

omit [DecidableEq ι] [DecidableEq ω] in
theorem sound_opening (s : Store) : (opening s : Pools ι ω).Sound s where
  accounted := Crew.accounted_opening s
  snapshots := Crew.snapshots_opening s
  endsOnce := Crew.endsOnce_opening s
  tasksOnce := ⟨fun _ hx => (nomatch hx), List.nodup_nil, fun _ _ _ hmem => (nomatch hmem)⟩
  noticesCommitted := ⟨fun _ hx => (nomatch hx), List.Pairwise.nil⟩
  givenUp _ hx := nomatch hx

namespace Sound

/-- What another party does leaves the pools sound. -/
theorem party (h : d.Sound s) (hs : s.RunsKeyed) {t : Timetable.Turn ι} (ht : t.EndsRuns) :
    (d.turn settings (.party t)).Sound s := by
  have hstep : d.Step { d.toCrew with toSession := d.toSession.turn t } := .party t ht
  refine ⟨h.accounted.step hs hstep, h.snapshots.step h.accounted hstep,
    h.endsOnce.step h.accounted hs hstep, ⟨fun x hx => (h.tasksOnce.claimed x hx).step hstep,
      h.tasksOnce.nodup, h.tasksOnce.fresh⟩, ⟨fun x hx => ?_, h.noticesCommitted.later⟩,
    fun x hx => (h.givenUp x hx).step h.accounted hs hstep⟩
  obtain ⟨k, now, hk⟩ := h.noticesCommitted.committed x hx
  exact ⟨k, now, hk.step h.accounted hstep⟩

/-- Whatever happens to a worker leaves the pools sound. -/
theorem worker (h : d.Sound s) (hs : s.RunsKeyed) (w : ω) (e : Crew.Event) :
    (d.turn settings (.worker w e)).Sound s := by
  have hgoes := d.toCrew.goes_event (settings w) w e
  have hstep : d.Step (d.toCrew.event (settings w) w e) := .worker w _ hgoes
  refine ⟨h.accounted.step hs hstep, h.snapshots.step h.accounted hstep,
    h.endsOnce.step h.accounted hs hstep, h.tasksOnce.goOn h.accounted hs hgoes,
    h.noticesCommitted.goOn h.accounted h.snapshots hs hgoes, List.forall_mem_append.2 ⟨?_, ?_⟩⟩
  · exact fun x hx => (h.givenUp x hx).step h.accounted hs hstep
  · intro x hx
    obtain ⟨run, hrun, rfl⟩ := List.mem_map.1 hx
    exact givenUp_event h.accounted h.endsOnce (settings w) (Option.mem_toList.1 hrun)

/-- **Every turn leaves the pools sound.** -/
theorem turn (h : d.Sound s) (hs : s.RunsKeyed) {t : Turn ι ω} (ht : t.EndsRuns) :
    (d.turn settings t).Sound s := by
  cases t with
  | party t => exact h.party hs ht
  | worker w e => exact h.worker hs w e

/-- **All turns leave the pools sound.** -/
theorem play (h : d.Sound s) (hs : s.RunsKeyed) {turns : List (Turn ι ω)}
    (hturns : ∀ t ∈ turns, t.EndsRuns) : (d.play settings turns).Sound s := by
  induction turns generalizing d with
  | nil => exact h
  | cons t turns ih =>
    exact ih (h.turn hs (hturns t (by simp))) fun u hu => hturns u (List.mem_cons_of_mem t hu)

omit [DecidableEq ι] [DecidableEq ω] in
/-- A run that is told about was ended by the worker that claimed it, at that moment only. -/
theorem moment_of_endedAt (h : d.Sound s) (hs : s.RunsKeyed) {x : Handout ω} (hx : x ∈ d.notices)
    {w : ω} {k : Nat} (hk : d.EndedAt w k x.run.id) : x.worker = w ∧ x.moment = k + 1 := by
  obtain ⟨j, now, hj⟩ := h.noticesCommitted.committed x hx
  have hworker : x.worker = w := h.accounted.claimedBy_unique hs
    (h.endsOnce.letGo _ _ _ hj.endedAt).claimed (h.endsOnce.letGo _ _ _ hk).claimed
  subst hworker
  exact ⟨rfl, h.endsOnce.unique _ _ _ _ hj.endedAt hk ▸ hj.moment_eq⟩

end Sound

/-- **Every run is handed out once, and told about as it was stored.**  Workers of any pools take
runs from one store, carry them out and store how they ended, while other parties do anything, their
statements interleaved in any way; whatever tasks return, whatever accesses fail or are given up,
and whichever workers are told to go: the store is what the statements have made of it; no run is
handed to a runner twice; notifiers are told about no run twice, and about a run right after a
statement of that worker found it going and ended it, with every column as that statement left it; a
run that a worker was to end and did not find going is told to nobody, and neither is a run that a
worker gave up to end, whatever becomes of the access. -/
theorem handed_out_once (settings : ω → SchedulerSettings) (hs : s.RunsKeyed)
    {turns : List (Turn ι ω)} (hturns : ∀ t ∈ turns, t.EndsRuns) :
    ((opening s).play settings turns).store =
        s.through ((opening s).play settings turns).history ∧
      (((opening s).play settings turns).tasks.map (·.run.id)).Nodup ∧
      (((opening s).play settings turns).notices.map (·.run.id)).Nodup ∧
      (∀ x ∈ ((opening s).play settings turns).notices,
        ∃ k now, Committed s ((opening s).play settings turns).toCrew x k now) ∧
      (∀ w k runId status error summary now, (w, k) ∈ ((opening s).play settings turns).acts →
        ((opening s).play settings turns).history[k]? =
          some ⟨Bool, .finish runId status error summary now⟩ →
        (∀ r ∈ (s.stage ((opening s).play settings turns).history k).runs, r.id = runId →
          r.hasStatus .running = false) →
        ∀ x ∈ ((opening s).play settings turns).notices, x.run.id ≠ runId) ∧
      ∀ w runId, (w, runId) ∈ ((opening s).play settings turns).abandoned →
        ∀ x ∈ ((opening s).play settings turns).notices, x.run.id ≠ runId := by
  have h : ((opening s).play settings turns).Sound s := (sound_opening s).play hs hturns
  generalize (opening s).play settings turns = d at h
  refine ⟨h.accounted.tracked.store_eq, h.tasksOnce.nodup, h.noticesCommitted.nodup h.accounted hs,
    h.noticesCommitted.committed, ?_, ?_⟩
  · rintro w k runId status error summary now hacts hstatement hlost x hx rfl
    obtain ⟨j, later, hj⟩ := h.noticesCommitted.committed x hx
    have hmoment := (h.moment_of_endedAt hs hx ⟨hacts, _, hstatement, rfl⟩).2
    obtain rfl : j = k := Nat.succ.inj (hj.moment_eq.symm.trans hmoment)
    obtain ⟨r, hr, hid, hgoing⟩ := hj.going
    rw [hlost r hr hid] at hgoing
    cases hgoing
  · rintro w runId habandoned x hx rfl
    obtain ⟨j, later, hj⟩ := h.noticesCommitted.committed x hx
    have hgiven : GivenUp s d.toCrew w x.run.id := h.givenUp _ habandoned
    have hworker : x.worker = w := h.accounted.claimedBy_unique hs
      (h.endsOnce.letGo _ _ _ hj.endedAt).claimed hgiven.letGo.claimed
    exact hgiven.never j (hworker ▸ hj.endedAt)

/-- The workers of two pools, which cut summaries at different lengths. -/
def shortAndLong : Bool → SchedulerSettings
  | false => { maxSummaryChars := 4 }
  | true => {}

/-- An hourly job fires three times.  A worker of one pool carries the first run out and tells about
it; a worker of the other one carries the second run out, which is failed in the meantime; and the
first worker carries the third run out and gives up to store how it ended, which is stored later. -/
def threeRuns : List (Turn Unit Bool) :=
  [.party (.take () (.saveJob (.interval "report" "true" 3600) 0)),
    .party (.act ()), .party (.act ()),
    .party (.take () (.tick 0)), .party (.act ()), .party (.act ()), .party (.act ()),
    .party (.take () (.tick 3600)), .party (.act ()), .party (.act ()), .party (.act ()),
    .worker false (.wake false), .worker false (.work false 3600), .worker false (.work false 3600),
    .worker false (.work false 3600),
    .worker false (.complete { timeout := 300 } (.ok (some "finished"))),
    .worker false (.work false 3700),
    .party (.take () (.tick 7200)), .party (.act ()), .party (.act ()), .party (.act ()),
    .worker true (.wake false), .worker true (.work false 7200), .worker true (.work false 7200),
    .worker true (.work false 7200), .party (.take () (.recover 7300)), .party (.act ()),
    .worker true (.complete { timeout := 300 } (.ok none)), .worker true (.work false 7400),
    .worker false .notified,
    .party (.take () (.tick 10800)), .party (.act ()), .party (.act ()), .party (.act ()),
    .worker false (.work false 10800), .worker false (.work false 10800),
    .worker false (.work false 10800),
    .worker false (.complete { timeout := 300 } (.error ["no route"])),
    .worker false (.fail .refused),
    .party (.take () (.finish "run:2" .failed (some "no route") none 10900)), .party (.act ())]

/-- All three runs are handed to runners, and only the first one is told about. -/
theorem handed_out_once_of_three :
    (((opening .empty).play shortAndLong threeRuns).tasks.map fun x => (x.worker, x.run.id)) =
        [(false, "run:0"), (true, "run:1"), (false, "run:2")] ∧
      (((opening .empty).play shortAndLong threeRuns).notices.map fun x =>
        (x.worker, x.run.id, x.run.resultSummary, x.run.finishedAt)) =
        [(false, "run:0", some "fini", some 3700)] ∧
      ((opening .empty).play shortAndLong threeRuns).abandoned = [(false, "run:2")] ∧
      (((opening .empty).play shortAndLong threeRuns).tasks.map (·.run.id)).Nodup ∧
      (∀ x ∈ ((opening .empty).play shortAndLong threeRuns).notices,
        ∃ k now, Committed .empty ((opening .empty).play shortAndLong threeRuns).toCrew x k now) ∧
      (∀ x ∈ ((opening .empty).play shortAndLong threeRuns).notices, x.run.id ≠ "run:1") ∧
      ∀ x ∈ ((opening .empty).play shortAndLong threeRuns).notices, x.run.id ≠ "run:2" := by
  have hturns : ∀ t ∈ threeRuns, t.EndsRuns := by
    simp [threeRuns, Turn.EndsRuns, Timetable.Turn.EndsRuns, Operation.EndsRuns,
      RunStatus.isTerminal]
  have h := handed_out_once shortAndLong Store.identified_empty.runsKeyed hturns
  have hfinish : ((opening .empty).play shortAndLong threeRuns).history[19]? =
      some ⟨Bool, .finish "run:1" .succeeded none none 7400⟩ := by
    with_unfolding_all rfl
  have hfailed : ∀ r ∈ (Store.empty.stage
      ((opening .empty).play shortAndLong threeRuns).history 19).runs, r.id = "run:1" →
      r.hasStatus .running = false := by
    decide +kernel
  exact ⟨by decide +kernel, by decide +kernel, by decide +kernel, h.2.1, h.2.2.2.1,
    h.2.2.2.2.1 true 19 "run:1" _ _ _ _ (by decide +kernel) hfinish hfailed,
    h.2.2.2.2.2 false "run:2" (by decide +kernel)⟩

end Pools

end Timetable
