/-
**A worker empties the queue in order.**

A worker on its own takes the run at the front of the queue, carries it out and looks at the queue
again.  Nothing counts the runs that are left.  But whatever becomes of a task, its run has ended
when the worker is back at the queue, so that there is one run less in it: what is left in between
is what was in the queue but for its front.  The worker goes on like this until there is nothing
left, and then it waits.

Main definitions:

* `Surroundings` — the time and what becomes of tasks, at each step of a worker;
* `Solo`, `Solo.step`, `Solo.play` — **a worker on its own**;
* `Store.Drainable` — the rows of runs can be read, and their jobs are there;
* `Solo.CarriesOut` — **runs are carried out one after the other**;
* `Solo.Drains` — the queue is emptied.

Main results:

* `Solo.play_round` — **one round of a worker**;
* `Store.Drainable.perm_queued`, `Solo.Drains.cons` — what a round leaves;
* `Solo.empties_queue` — **a worker on its own empties the queue in order**;
* `Service.work_eq_play`, `Service.queued_work` — the worker of the service does.
-/

import Timetable.Proofs.QueueOrder
import Timetable.Service

set_option autoImplicit false
set_option relaxedAutoImplicit false

namespace Timetable

/-! ### A worker on its own -/

/-- **What a worker does not decide itself**: the time, and what becomes of a task, at each of its
steps. -/
structure Surroundings where
  /-- What the clock shows. -/
  now : Nat → Int
  /-- The context that a task leaves, and its result. -/
  outcome : Nat → Job → Run → RunContext × TaskResult

/-- **A worker on its own**, with the tasks that it has carried out. -/
structure Solo where
  /-- Where the worker stands. -/
  phase : Phase
  /-- The tables. -/
  store : Store
  /-- The tasks, in order. -/
  tasks : List (Job × Run)

namespace Solo

variable (settings : SchedulerSettings) (around : Surroundings)

/-- **One step of a worker**: its task returns, or whoever was to be told has been told, or it makes
its next access. -/
def step (k : Nat) (d : Solo) : Solo :=
  match d.phase with
  | .executing job run =>
    let (context, result) := around.outcome k job run
    { d with
      phase := d.phase.complete settings context result
      tasks := d.tasks ++ [(job, run)] }
  | .notifying _ _ => { d with phase := d.phase.notified }
  | p =>
    let (p, s) := p.advance settings Statement.run false (around.now k) d.store
    { d with phase := p, store := s }

/-- **So many steps of a worker**, from a step on. -/
def play : (k steps : Nat) → Solo → Solo
  | _, 0, d => d
  | k, steps + 1, d => play (k + 1) steps (d.step settings around k)

variable {settings around} {k : Nat} {s : Store} {tasks : List (Job × Run)} {job : Job} {run : Run}

theorem play_add (m n : Nat) (d : Solo) :
    d.play settings around k (m + n) =
      (d.play settings around k m).play settings around (k + m) n := by
  induction m generalizing k d with
  | zero => rw [Nat.zero_add]; rfl
  | succ m ih =>
    rw [Nat.succ_add, play, play, ih, Nat.add_right_comm, Nat.add_assoc]

/-- A worker that does nothing goes on doing nothing. -/
theorem play_of_step_eq {d : Solo} (h : ∀ k, d.step settings around k = d) (n : Nat) :
    d.play settings around k n = d := by
  induction n generalizing k with
  | zero => rfl
  | succ n ih => rw [play, h, ih]

/-- A worker that has come to do nothing has done so after more steps, too. -/
theorem play_of_le {m n : Nat} {d d' : Solo} (hplay : d.play settings around k m = d')
    (hidle : ∀ k, d'.step settings around k = d') (hle : m ≤ n) :
    d.play settings around k n = d' := by
  obtain ⟨more, rfl⟩ := Nat.exists_eq_add_of_le hle
  rw [play_add, hplay, play_of_step_eq hidle]

theorem step_looking {front : RunRow} (hfront : s.oldestQueuedRow? = some front)
    (hread : front.decode = .ok run) :
    (⟨.looking, s, tasks⟩ : Solo).step settings around k = ⟨.claiming run, s, tasks⟩ := by
  simp [step, Phase.advance, Statement.run, Statement.readRuns, Store.oldestQueued?, hfront, hread,
    Except.map, Except.mapError]

theorem step_looking_of_empty (hempty : s.oldestQueuedRow? = none) :
    (⟨.looking, s, tasks⟩ : Solo).step settings around k = ⟨.waiting, s, tasks⟩ := by
  simp [step, Phase.advance, Statement.run, Statement.readRuns, Store.oldestQueued?, hempty,
    Except.mapError]

theorem step_claiming {s' : Store} (hclaim : s.claim run.id (around.now k) = (true, s')) :
    (⟨.claiming run, s, tasks⟩ : Solo).step settings around k =
      ⟨.loading (run.claimed (around.now k)), s', tasks⟩ := by
  simp [step, Phase.advance, Statement.run, hclaim]

theorem step_loading (hjob : s.jobWithId? run.jobId = some job) :
    (⟨.loading run, s, tasks⟩ : Solo).step settings around k = ⟨.executing job run, s, tasks⟩ := by
  simp [step, Phase.advance, Statement.run, hjob]

/-- What is stored of a run whose task is carried out at a step. -/
def outcome (settings : SchedulerSettings) (around : Surroundings) (k : Nat) (job : Job)
    (run : Run) : Outcome :=
  .classify settings (around.outcome k job run).1 (around.outcome k job run).2

theorem step_executing :
    (⟨.executing job run, s, tasks⟩ : Solo).step settings around k =
      ⟨.storing (some job) run (outcome settings around k job run), s, tasks ++ [(job, run)]⟩ := rfl

theorem step_storing {s' : Store} {o : Outcome}
    (hfinish : s.finish run.id o.status o.error o.summary (around.now k) = (true, s')) :
    (⟨.storing (some job) run o, s, tasks⟩ : Solo).step settings around k =
      ⟨.notifying job (run.finished o (around.now k)), s', tasks⟩ := by
  simp [step, Phase.advance, Statement.run, hfinish]

theorem step_notifying :
    (⟨.notifying job run, s, tasks⟩ : Solo).step settings around k = ⟨.looking, s, tasks⟩ := rfl

end Solo

/-! ### Rounds -/

namespace Store

/-- The runs that wait. -/
def queued (s : Store) : List RunRow :=
  s.runs.filter (·.hasStatus .queued)

/-- The row of a run is replaced. -/
def putRun (s : Store) (run : Run) : Store :=
  { s with runs := s.runs.map fun r => if r.id = run.id then .ofRun run else r }

/-- **A queue can be emptied**: runs are told apart by their identifiers, their rows can be read,
and their jobs are there. -/
structure Drainable (s : Store) : Prop where
  /-- No two runs have the same identifier. -/
  keyed : (s.runs.map (·.id)).Nodup
  /-- Every row can be read. -/
  readable : ∀ r ∈ s.runs, ∃ run, r.decode = .ok run
  /-- Every run has its job. -/
  owned : ∀ r ∈ s.runs, ∃ job, s.jobWithId? r.jobId = some job

variable {s : Store} {run run' : Run}

theorem ofRun_mem_putRun (h : .ofRun run ∈ s.runs) (hid : run'.id = run.id) :
    .ofRun run' ∈ (s.putRun run').runs :=
  List.mem_map.2 ⟨.ofRun run, h, if_pos hid.symm⟩

theorem mem_putRun {r : RunRow} (h : r ∈ (s.putRun run).runs) :
    r = .ofRun run ∨ r ∈ s.runs ∧ r.id ≠ run.id := by
  obtain ⟨y, hy, rfl⟩ := List.mem_map.1 h
  by_cases hid : y.id = run.id
  · exact Or.inl (if_pos hid)
  · rw [if_neg hid]
    exact Or.inr ⟨hy, hid⟩

theorem ids_putRun (s : Store) (run : Run) :
    (s.putRun run).runs.map (·.id) = s.runs.map (·.id) := by
  simp only [putRun, List.map_map]
  refine List.map_congr_left ?_
  intro r _
  by_cases hr : r.id = run.id
  · simp [hr, RunRow.ofRun]
  · simp [hr]

theorem putRun_putRun (s : Store) (hid : run.id = run'.id) :
    (s.putRun run).putRun run' = s.putRun run' := by
  simp only [putRun, List.map_map, mk.injEq, true_and, and_true]
  refine List.map_congr_left ?_
  intro r _
  by_cases hr : r.id = run'.id
  · simp [hr, hid, RunRow.ofRun]
  · simp [hr, hid]

namespace Drainable

theorem row_unique (h : s.Drainable) {r r' : RunRow} (hr : r ∈ s.runs) (hr' : r' ∈ s.runs)
    (hid : r.id = r'.id) : r = r' :=
  List.inj_on_of_nodup_map h.keyed hr hr' hid

/-- What finds a run by its identifier and its status changes the row of the run. -/
theorem update_eq (h : s.Drainable) (run' : Run) (hrun : .ofRun run ∈ s.runs)
    (hid : run'.id = run.id) {f : RunRow → RunRow} (hf : f (.ofRun run) = .ofRun run') :
    s.runs.any (fun r => r.id == run.id && r.hasStatus run.status) = true ∧
      s.updateRuns (fun r => r.id == run.id && r.hasStatus run.status) f = s.putRun run' := by
  have hfinds {r : RunRow} (hr : r ∈ s.runs) :
      (r.id == run.id && r.hasStatus run.status) = true ↔ r.id = run.id := by
    simp only [Bool.and_eq_true, beq_iff_eq, and_iff_left_iff_imp]
    intro hsame
    rw [h.row_unique hr hrun hsame, RunRow.hasStatus_ofRun]
    exact decide_eq_true rfl
  constructor
  · exact List.any_eq_true.2 ⟨.ofRun run, hrun, (hfinds hrun).2 rfl⟩
  · simp only [updateRuns, putRun, mk.injEq, true_and, and_true]
    refine List.map_congr_left ?_
    intro r hr
    by_cases hsame : r.id = run.id
    · rw [if_pos ((hfinds hr).2 hsame), if_pos (hsame.trans hid.symm), h.row_unique hr hrun hsame,
        hf]
    · rw [if_neg fun hfound => hsame ((hfinds hr).1 hfound),
        if_neg fun hfound => hsame (hfound.trans hid)]

/-- **A run that waits is claimed.** -/
theorem claim_eq (h : s.Drainable) (hrun : .ofRun run ∈ s.runs) (hwaits : run.status = .queued)
    (now : Int) :
    s.claim run.id now = (true, s.putRun (run.claimed now)) := by
  have hupdate := h.update_eq (run.claimed now) hrun rfl
    (f := fun r => { r with status := RunStatus.running.name, startedAt := some now }) rfl
  rw [hwaits] at hupdate
  exact Prod.ext hupdate.1 hupdate.2

/-- **A run that is going ends.** -/
theorem finish_eq (h : s.Drainable) (hrun : .ofRun run ∈ s.runs) (hgoing : run.status = .running)
    (o : Outcome) (now : Int) :
    s.finish run.id o.status o.error o.summary now = (true, s.putRun (run.finished o now)) := by
  have hupdate := h.update_eq (run.finished o now) hrun rfl
    (f := fun r => { r with
      status := o.status.name, finishedAt := some now, error := o.error,
      resultSummary := o.summary }) rfl
  rw [hgoing] at hupdate
  exact Prod.ext hupdate.1 hupdate.2

/-- **The row of a run can be replaced** by one of the same job. -/
protected theorem putRun (h : s.Drainable) (run' : Run) (hrun : .ofRun run ∈ s.runs)
    (hjob : run'.jobId = run.jobId)
    (hattempt : run'.attempt ≤ Text.uint32Max) : (s.putRun run').Drainable where
  keyed := ids_putRun s run' ▸ h.keyed
  readable := by
    intro r hr
    rcases mem_putRun hr with rfl | ⟨hold, -⟩
    · exact ⟨run', RunRow.decode_ofRun hattempt⟩
    · exact h.readable r hold
  owned := by
    intro r hr
    rcases mem_putRun hr with rfl | ⟨hold, -⟩
    · obtain ⟨job, hfound⟩ := h.owned _ hrun
      exact ⟨job, (congrArg s.jobWithId? hjob).trans hfound⟩
    · exact h.owned r hold

/-- What waits after the end of a run are the other runs. -/
theorem queued_putRun (s : Store) (hended : run'.status ≠ .queued) :
    (s.putRun run').queued = s.queued.filter (·.id ≠ run'.id) := by
  have hothers : (fun r => (if r.id = run'.id then RunRow.ofRun run' else r).hasStatus .queued) =
      fun r => decide (r.id ≠ run'.id) && r.hasStatus .queued := by
    funext r
    by_cases hr : r.id = run'.id
    · simp [hr, RunRow.hasStatus_ofRun, hended]
    · simp [hr]
  rw [queued, putRun, List.filter_map, Function.comp_def, hothers, queued, List.filter_filter]
  refine (List.map_congr_left ?_).trans (List.map_id _)
  intro r hr
  have hother : r.id ≠ run'.id := by simpa using (Bool.and_eq_true_iff.1 (List.mem_filter.1 hr).2).1
  exact if_neg hother

/-- **A run that ends leaves the queue**, and no other run does. -/
theorem perm_queued (h : s.Drainable) (run' : Run) (hrun : .ofRun run ∈ s.queued)
    (hid : run'.id = run.id)
    (hended : run'.status ≠ .queued) : s.queued.Perm (.ofRun run :: (s.putRun run').queued) := by
  have hnodup : s.queued.Nodup := (List.Nodup.of_map _ h.keyed).filter _
  have hothers : (s.putRun run').queued = s.queued.erase (.ofRun run) := by
    rw [queued_putRun s hended, hnodup.erase_eq_filter]
    refine List.filter_congr ?_
    intro r hr
    rw [Bool.eq_iff_iff, decide_eq_true_iff, bne_iff_ne, hid]
    refine not_congr ⟨fun hsame => ?_, fun hsame => congrArg RunRow.id hsame⟩
    exact h.row_unique (List.mem_of_mem_filter hr) (List.mem_of_mem_filter hrun) hsame
  rw [hothers]
  exact List.perm_cons_erase hrun

end Drainable

end Store

/-! ### Draining -/

namespace Solo

variable {settings : SchedulerSettings} {around : Surroundings} {k : Nat} {s : Store}
  {tasks : List (Job × Run)} {job : Job} {run : Run}

/-- The run whose task is carried out in a round, as it is then. -/
def taken (around : Surroundings) (k : Nat) (run : Run) : Run :=
  run.claimed (around.now (k + 1))

/-- The run of a round at its end: it was claimed in the second step of the round, its task returned
in the fourth one, and how it ended was stored in the fifth one. -/
def settled (settings : SchedulerSettings) (around : Surroundings) (k : Nat) (job : Job)
    (run : Run) : Run :=
  (taken around k run).finished (outcome settings around (k + 3) job (taken around k run))
    (around.now (k + 4))

theorem isTerminal_settled (settings : SchedulerSettings) (around : Surroundings) (k : Nat)
    (job : Job) (run : Run) :
    (settled settings around k job run).status.isTerminal = true :=
  Outcome.isTerminal_classify _ _ _

theorem status_settled_ne (settings : SchedulerSettings) (around : Surroundings) (k : Nat)
    (job : Job) (run : Run) :
    (settled settings around k job run).status ≠ .queued := by
  intro hqueued
  have hover := isTerminal_settled settings around k job run
  rw [hqueued] at hover
  cases hover

/-- **One round of a worker**: the run at the front of the queue is carried out. -/
theorem play_round (h : s.Drainable) {front : RunRow} (hfront : s.oldestQueuedRow? = some front)
    (hread : front.decode = .ok run) (hjob : s.jobWithId? run.jobId = some job) :
    (⟨.looking, s, tasks⟩ : Solo).play settings around k 6 =
      ⟨.looking, s.putRun (settled settings around k job run),
        tasks ++ [(job, taken around k run)]⟩ := by
  obtain ⟨hmem, hwaits⟩ := List.mem_filter.1 (Store.frontOfQueue_mem hfront)
  rw [RunRow.eq_ofRun_of_decode hread] at hmem hwaits
  have hstatus : run.status = .queued :=
    of_decide_eq_true (RunRow.hasStatus_ofRun run .queued ▸ hwaits)
  have hattempt : run.attempt ≤ Text.uint32Max := RunRow.attempt_le_of_decode hread
  have hclaimed : (s.putRun (taken around k run)).Drainable := h.putRun _ hmem rfl hattempt
  have hclaim : s.claim run.id (around.now (k + 1)) = (true, s.putRun (taken around k run)) :=
    h.claim_eq hmem hstatus _
  have hload : (s.putRun (taken around k run)).jobWithId? (taken around k run).jobId = some job :=
    hjob
  have hover : (s.putRun (taken around k run)).putRun (settled settings around k job run) =
      s.putRun (settled settings around k job run) := Store.putRun_putRun s rfl
  have hfinish := hclaimed.finish_eq (Store.ofRun_mem_putRun hmem rfl) rfl
    (outcome settings around (k + 3) job (taken around k run)) (around.now (k + 4))
  rw [← settled, hover] at hfinish
  calc (⟨.looking, s, tasks⟩ : Solo).play settings around k 6
    _ = (⟨.claiming run, s, tasks⟩ : Solo).play settings around (k + 1) 5 := by
      rw [play, step_looking hfront hread]
    _ = (⟨.loading (taken around k run), s.putRun (taken around k run), tasks⟩ : Solo).play
          settings around (k + 2) 4 := by
      rw [play, step_claiming hclaim]
      rfl
    _ = (⟨.executing job (taken around k run), s.putRun (taken around k run), tasks⟩ : Solo).play
          settings around (k + 3) 3 := by
      rw [play, step_loading hload]
    _ = (⟨.storing (some job) (taken around k run)
            (outcome settings around (k + 3) job (taken around k run)),
          s.putRun (taken around k run), tasks ++ [(job, taken around k run)]⟩ : Solo).play
          settings around (k + 4) 2 := by
      rw [play, step_executing]
    _ = (⟨.notifying job (settled settings around k job run),
          s.putRun (settled settings around k job run),
          tasks ++ [(job, taken around k run)]⟩ : Solo).play settings around (k + 5) 1 := by
      rw [play, step_storing hfinish]
      rfl
    _ = ⟨.looking, s.putRun (settled settings around k job run),
      tasks ++ [(job, taken around k run)]⟩ := by
      rw [play, step_notifying]
      rfl

end Solo

/-- **What becomes of the row of a run**: it stays as it is, unless the run waits, and then the run
ends. -/
inductive RunRow.Drained (r : RunRow) : RunRow → Prop where
  /-- The run does not wait. -/
  | kept (idle : r.hasStatus .queued = false) : Drained r r
  /-- The run waits, and it ends. -/
  | ended (run : Run) (waits : r.hasStatus .queued = true) (same : run.id = r.id)
    (terminal : run.status.isTerminal = true) : Drained r (.ofRun run)

/-- The row of a run that has ended stays as it is. -/
theorem RunRow.Drained.eq_ofRun {run : Run} (hover : run.status.isTerminal = true) {r : RunRow}
    (h : (RunRow.ofRun run).Drained r) : r = .ofRun run := by
  cases h with
  | kept => rfl
  | ended run' waits =>
    rw [hasStatus_ofRun, decide_eq_true_iff] at waits
    rw [waits] at hover
    cases hover

namespace Solo

/-- **Runs are carried out one after the other**, from a step on: each of them in a round of six
steps, in which its job is loaded, its task is handed out, and its row is left as the run has
ended. -/
inductive CarriesOut (settings : SchedulerSettings) (around : Surroundings)
    (job? : String → Option Job)
    (rows : List RunRow) : Nat → List Run → List (Job × Run) → Prop where
  /-- There is nothing left to be carried out. -/
  | nil (k : Nat) : CarriesOut settings around job? rows k [] []
  /-- A run is carried out, and then the others are. -/
  | cons {k : Nat} {run : Run} {job : Job} {order : List Run} {handed : List (Job × Run)}
    (loaded : job? run.jobId = some job) (left : .ofRun (settled settings around k job run) ∈ rows)
    (rest : CarriesOut settings around job? rows (k + 6) order handed) :
    CarriesOut settings around job? rows k (run :: order) ((job, taken around k run) :: handed)

/-- **The queue is emptied in order**, from a step on: the runs that waited are carried out in the
order of their fires, and of their creation where they stand for the same fire. -/
structure Drains (settings : SchedulerSettings) (around : Surroundings) (k : Nat) (s : Store)
    (order : List Run) (handed : List (Job × Run)) (s' : Store) : Prop where
  /-- What is carried out is what waited. -/
  queue : (order.map RunRow.ofRun).Perm s.queued
  /-- It is carried out in order. -/
  sorted : order.Pairwise fun a b => (RunRow.ofRun a).NoLater (.ofRun b)
  /-- Each run has its round. -/
  rounds : CarriesOut settings around s.jobWithId? s'.runs k order handed
  /-- Nothing waits any more. -/
  empty : s'.queued = []
  /-- The runs are the same. -/
  ids : s'.runs.map (·.id) = s.runs.map (·.id)
  /-- Only the rows of the runs that waited have changed. -/
  rows : ∀ r ∈ s.runs, ∃ r' ∈ s'.runs, r.Drained r'
  /-- Nothing else has. -/
  others : { s' with runs := s.runs } = s

variable {settings : SchedulerSettings} {around : Surroundings} {k : Nat} {s s' : Store}
  {tasks : List (Job × Run)} {run : Run}

/-- A queue with nothing in it is emptied. -/
theorem drains_of_empty (hempty : s.queued = []) : Drains settings around k s [] [] s where
  queue := by rw [hempty]; exact .nil
  sorted := .nil
  rounds := .nil k
  empty := hempty
  ids := rfl
  rows := by
    intro r hr
    have hidle : r.hasStatus .queued ≠ true := List.filter_eq_nil_iff.1 hempty r hr
    exact ⟨r, hr, .kept (Bool.eq_false_iff.2 hidle)⟩
  others := rfl

/-- **A round, and then the others**: the run at the front is carried out, and then what is left. -/
theorem Drains.cons (h : s.Drainable) (hrun : .ofRun run ∈ s.queued)
    (hfirst : ∀ r ∈ s.queued, (RunRow.ofRun run).NoLater r) {job : Job}
    (hjob : s.jobWithId? run.jobId = some job) {order : List Run} {handed : List (Job × Run)}
    (hrest : Drains settings around (k + 6) (s.putRun (settled settings around k job run)) order
      handed s') :
    Drains settings around k s (run :: order) ((job, taken around k run) :: handed) s' := by
  have hover := isTerminal_settled settings around k job run
  have hmem : .ofRun run ∈ s.runs := List.mem_of_mem_filter hrun
  have hperm :=
    h.perm_queued (settled settings around k job run) hrun rfl (status_settled_ne _ _ _ _ _)
  have hleft : .ofRun (settled settings around k job run) ∈ s'.runs := by
    obtain ⟨r', hr', hdrained⟩ := hrest.rows _ (Store.ofRun_mem_putRun hmem rfl)
    exact hdrained.eq_ofRun hover ▸ hr'
  refine ⟨?_, ?_, .cons hjob hleft hrest.rounds, hrest.empty, ?_, ?_, ?_⟩
  · exact (hrest.queue.cons _).trans hperm.symm
  · refine List.pairwise_cons.2 ⟨?_, hrest.sorted⟩
    intro b hb
    refine hfirst _ (hperm.mem_iff.2 (List.mem_cons_of_mem _ ?_))
    exact hrest.queue.mem_iff.1 (List.mem_map_of_mem hb)
  · exact hrest.ids.trans (Store.ids_putRun s _)
  · intro r hr
    by_cases hid : r.id = run.id
    · obtain rfl := h.row_unique hr hmem hid
      exact ⟨_, hleft, .ended _ (List.mem_filter.1 hrun).2 rfl hover⟩
    · refine hrest.rows r (List.mem_map.2 ⟨r, hr, if_neg hid⟩)
  · exact congrArg (fun x : Store => { x with runs := s.runs }) hrest.others

/-- A run is carried out once for each time that it waited. -/
theorem CarriesOut.ids {job? : String → Option Job} {rows : List RunRow} {order : List Run}
    {handed : List (Job × Run)} (h : CarriesOut settings around job? rows k order handed) :
    handed.map (·.2.id) = order.map (·.id) := by
  induction h with
  | nil => rfl
  | cons _ _ _ ih => exact congrArg₂ List.cons rfl ih

/-- **A worker on its own empties the queue**: in six steps for each run that waits, and one more to
see that there is nothing left. -/
theorem exists_drains (settings : SchedulerSettings) (around : Surroundings) (h : s.Drainable)
    (k : Nat) (tasks : List (Job × Run)) :
    ∃ order handed s',
      (⟨.looking, s, tasks⟩ : Solo).play settings around k (6 * s.queued.length + 1) =
        ⟨.waiting, s', tasks ++ handed⟩ ∧
      Drains settings around k s order handed s' := by
  -- every round leaves one run less in the queue
  induction hlength : s.queued.length generalizing s k tasks with
  | zero =>
    have hempty : s.queued = [] := List.length_eq_zero_iff.1 hlength
    have hnone : s.oldestQueuedRow? = none := congrArg Store.frontOfQueue hempty
    refine ⟨[], [], s, ?_, drains_of_empty hempty⟩
    rw [List.append_nil, Nat.mul_zero, Nat.zero_add, play, step_looking_of_empty hnone]
    rfl
  | succ n ih =>
    cases hfront : s.oldestQueuedRow? with
    | none =>
      have hempty : s.queued = [] := Store.frontOfQueue_eq_none hfront
      simp [hempty] at hlength
    | some front =>
      have hqueued : front ∈ s.queued := Store.frontOfQueue_mem hfront
      have hmem : front ∈ s.runs := List.mem_of_mem_filter hqueued
      obtain ⟨run, hread⟩ := h.readable front hmem
      obtain ⟨job, hjob⟩ := h.owned front hmem
      obtain rfl := RunRow.eq_ofRun_of_decode hread
      have hattempt : run.attempt ≤ Text.uint32Max := RunRow.attempt_le_of_decode hread
      have hleft : (s.putRun (settled settings around k job run)).queued.length = n := by
        have hperm := h.perm_queued (settled settings around k job run) hqueued rfl
          (status_settled_ne _ _ _ _ _)
        have := hperm.length_eq
        rw [List.length_cons] at this
        omega
      obtain ⟨order, handed, s', hplay, hdrains⟩ :=
        ih (h.putRun (settled settings around k job run) hmem rfl hattempt) (k + 6)
          (tasks ++ [(job, taken around k run)]) hleft
      refine ⟨run :: order, (job, taken around k run) :: handed, s', ?_,
        .cons h hqueued (Store.frontOfQueue_noLater hfront) hjob hdrains⟩
      rw [show 6 * (n + 1) + 1 = 6 + (6 * n + 1) by omega, play_add, play_round h hfront hread hjob,
        hplay, List.append_assoc]
      rfl

/-- **A worker on its own empties the queue in order.**  Whatever becomes of the tasks and whatever
the clock shows, after six steps for each run that waited and one more the worker waits, and goes on
waiting.  Every run that waited was handed out once, in the order of the fires and of the creation,
and has ended; no run waits any more; and the rows of all other runs are as they were. -/
theorem empties_queue (settings : SchedulerSettings) (around : Surroundings) (h : s.Drainable) :
    ∃ order handed s',
      (∀ steps, 6 * s.queued.length + 1 ≤ steps →
        (⟨.looking, s, []⟩ : Solo).play settings around 0 steps = ⟨.waiting, s', handed⟩) ∧
      Drains settings around 0 s order handed s' ∧
      (handed.map (·.2.id)).Perm (s.queued.map (·.id)) ∧ (handed.map (·.2.id)).Nodup := by
  obtain ⟨order, handed, s', hplay, hdrains⟩ := exists_drains settings around h 0 []
  have hperm : (handed.map (·.2.id)).Perm (s.queued.map (·.id)) := by
    have hids := hdrains.queue.map (·.id)
    rw [List.map_map] at hids
    exact hdrains.rounds.ids ▸ hids
  refine ⟨order, handed, s', ?_, hdrains, hperm, ?_⟩
  · intro steps hsteps
    exact play_of_le hplay (fun _ => rfl) hsteps
  · exact hperm.nodup_iff.2 (h.keyed.sublist (List.filter_sublist.map _))

end Solo

/-- A run of the hourly job, which waits. -/
def hourlyWaiting (id : String) (fire : Int) : Run :=
  { id, jobId := "job:0", jobUpdatedAt := 0, status := .queued, scheduledFor := fire,
    startedAt := none, finishedAt := none, attempt := 1, error := none, resultSummary := none
    createdAt := fire }

/-- Two runs wait, the later one in the first row. -/
def twoWaiting : Store :=
  { jobs := [.ofSpec "job:0" (.interval "report" "true" 3600) 0]
    runs := [.ofRun (hourlyWaiting "run:1" 7200), .ofRun (hourlyWaiting "run:0" 3600)]
    jobSerial := 1
    runSerial := 2 }

theorem drainable_twoWaiting : twoWaiting.Drainable where
  keyed := by decide
  readable := by
    intro r hr
    rcases List.mem_pair.1 hr with rfl | rfl <;> exact ⟨_, RunRow.decode_ofRun (by decide)⟩
  owned := by
    intro r hr
    rcases List.mem_pair.1 hr with rfl | rfl <;> exact ⟨_, rfl⟩

/-- A clock that goes on, and tasks that succeed. -/
def succeeding : Surroundings where
  now k := 7200 + k
  outcome _ job _ := ({ timeout := job.timeout }, .ok none)

/-- Thirteen steps empty the queue, and the earlier run is carried out first. -/
theorem empties_queue_twoWaiting :
    twoWaiting.Drainable ∧ ∃ order handed s',
      (⟨.looking, twoWaiting, []⟩ : Solo).play {} succeeding 0 13 = ⟨.waiting, s', handed⟩ ∧
      Solo.Drains {} succeeding 0 twoWaiting order handed s' ∧
        handed.map (·.2.id) = ["run:0", "run:1"] := by
  obtain ⟨order, handed, s', hplay, hdrains, -⟩ :=
    Solo.empties_queue {} succeeding drainable_twoWaiting
  have hend := hplay 13 (by decide)
  have hhanded : ((⟨.looking, twoWaiting, []⟩ : Solo).play {} succeeding 0 13).tasks = handed :=
    congrArg Solo.tasks hend
  refine ⟨drainable_twoWaiting, order, handed, s', hend, hdrains, ?_⟩
  rw [← hhanded]
  decide +kernel

namespace Service

/-- What surrounds the worker of the service: the time stands still, and tasks are carried out by
the shell. -/
def around (settings : SchedulerSettings) (now : Int) : Surroundings where
  now _ := now
  outcome _ := carryOut settings

/-- **The worker of the service** is a worker on its own. -/
theorem work_eq_play (settings : SchedulerSettings) (now : Int) (steps k : Nat) (p : Phase)
    (s : Store) (tasks : List (Job × Run)) :
    work settings now steps p s =
      ((⟨p, s, tasks⟩ : Solo).play settings (around settings now) k steps).store := by
  induction steps generalizing k p s tasks with
  | zero => rfl
  | succ steps ih =>
    cases p with
    | waiting => rw [Solo.play_of_step_eq fun _ => rfl]; rfl
    | gone => rw [Solo.play_of_step_eq fun _ => rfl]; rfl
    | _ => exact ih _ _ _ _

/-- **What the worker of the service leaves**: nothing waits any more, as far as its steps go. -/
theorem queued_work {s : Store} (h : s.Drainable) (settings : SchedulerSettings) (now : Int) :
    (work settings now (stepBound s) .looking s).queued = [] := by
  obtain ⟨order, handed, s', hplay, hdrains⟩ :=
    Solo.exists_drains settings (around settings now) h 0 []
  have hbound : 6 * s.queued.length + 1 ≤ stepBound s := by
    have hle : s.queued.length ≤ s.runs.length := List.length_filter_le _ _
    unfold stepBound
    omega
  rw [work_eq_play settings now (stepBound s) 0 .looking s [],
    Solo.play_of_le hplay (fun _ => rfl) hbound]
  exact hdrains.empty

end Service

end Timetable
