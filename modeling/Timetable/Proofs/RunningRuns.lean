/-
**Whatever is going, a worker is at it.**

A process that starts fails the runs that an earlier process left going, moves missed fires into the
future, and then lets its loop and its workers begin.  From the recovery on a run that is going is
one that a worker of the process claimed and still holds: nothing but a worker takes runs from the
queue, and a worker lets a run go only by storing how it ended.  So no more runs are going than
there are workers, and none when all workers are gone.  An access of a worker may fail, or take
longer than the worker waits for it, but not one that stores an outcome: a worker that gives that up
goes on, and the run stays as if it were going.

Main definitions:

* `Process`, `Process.turn` — **a process, from its start on**;
* `Process.Persists` — no access that stores an outcome fails, or is given up;
* `Crew.Staffed` — every run that is going is held by a worker.

Main results:

* `Statement.mem_of_running` — what leaves runs to their workers takes none from the queue;
* `Phase.Moves.running` — an access of a worker, and the runs that are going;
* `Process.running_held` — **every run that is going was claimed by the worker that holds it**.
-/

import Mathlib.Data.List.Perm.Subperm
import Timetable.Proofs.Crew

set_option autoImplicit false
set_option relaxedAutoImplicit false

namespace Timetable

/-! ### Which runs are going after a statement -/

namespace Statement

variable {α : Type} {st : Statement α} {s : Store}

/-- **What leaves runs to their workers takes none from the queue**: a run that is going afterwards
was going, and is as it was. -/
theorem mem_of_running (h : st.LeavesGoing) {r : RunRow} (hr : r ∈ (st.run s).2.runs)
    (hrunning : r.hasStatus .running = true) : r ∈ s.runs := by
  cases yields_of_mem_runs hr with
  | kept old => exact old
  | taken => exact h.elim
  | finished => exact h.elim
  | failed => exact h.elim
  | fired busy =>
    -- the run of a fire waits or was skipped
    rw [RunRow.hasStatus_ofRun] at hrunning
    cases busy <;> cases hrunning

end Statement

namespace Store

variable {s : Store} {runId : String} {now : Int} {r : RunRow}

/-- A run that is going after a claim was going, or is the one that was claimed. -/
theorem mem_of_running_claim (hr : r ∈ (s.claim runId now).2.runs)
    (hrunning : r.hasStatus .running = true) :
    r ∈ s.runs ∨ ∃ r₀ ∈ s.runs, r₀.id = runId ∧ r₀.hasStatus .queued = true ∧
      r = r₀.started now := by
  obtain ⟨r₀, hr₀, rfl⟩ := List.mem_map.1 hr
  split
  · rename_i hqueued
    simp only [isQueued, Bool.and_eq_true, beq_iff_eq] at hqueued
    exact Or.inr ⟨r₀, hr₀, hqueued.1, hqueued.2, rfl⟩
  · exact Or.inl hr₀

/-- A run that is going after the end of a run was going, and is another one. -/
theorem mem_of_running_finish {status : RunStatus} {error summary : Option String}
    (hr : r ∈ (s.finish runId status error summary now).2.runs)
    (hover : status.isTerminal = true) (hrunning : r.hasStatus .running = true) :
    r ∈ s.runs ∧ r.id ≠ runId := by
  obtain ⟨r₀, hr₀, rfl⟩ := List.mem_map.1 hr
  by_cases hrun : isRunning runId r₀ = true
  · rw [if_pos hrun, RunRow.hasStatus_of_status (a := status) rfl] at hrunning
    rw [of_decide_eq_true hrunning] at hover
    cases hover
  · rw [if_neg hrun] at hrunning ⊢
    refine ⟨hr₀, fun hid => hrun ?_⟩
    simp only [isRunning, hid, hrunning, beq_self_eq_true, Bool.and_self]

/-- After all runs that were going have failed, none is going. -/
theorem not_running_of_failRunning {message : String}
    (hr : r ∈ (s.failRunning message now).2.runs) : r.hasStatus .running = false := by
  obtain ⟨r₀, -, rfl⟩ := List.mem_map.1 hr
  by_cases hrun : r₀.hasStatus .running = true
  · rw [if_pos hrun]
    exact RunRow.hasStatus_of_status (a := .failed) rfl _
  · rw [if_neg hrun]
    exact Bool.not_eq_true _ ▸ hrun

end Store

/-- **An access of a worker, and the runs that are going**: a run that is going afterwards was
going, and is not the one that the worker lets go; or it is the one that the worker has claimed. -/
theorem Phase.Moves.running {s : Store} {now : Int} {p p' : Phase} {a : Access}
    (h : Moves s now p a p') (hsees : ∀ run, p = .claiming run → s.Shows run) (hends : p.EndsRun)
    {r : RunRow} (hr : r ∈ (a.apply s).runs) (hrunning : r.hasStatus .running = true) :
    (r ∈ s.runs ∧ ∀ run, p.held? = some run → r.id = run.id → p'.held? = some run) ∨
      ∃ run, p'.held? = some run ∧ r.decode = .ok run := by
  cases h with
  | win run won =>
    rcases Store.mem_of_running_claim hr hrunning with hold | ⟨r₀, hr₀, hid, hqueued, rfl⟩
    · exact Or.inl ⟨hold, fun _ hheld => by cases hheld⟩
    · have hdecode : r₀.decode = .ok run := (hsees run rfl).decode r₀ hr₀ hid hqueued
      exact Or.inr ⟨run.claimed now, rfl, RunRow.decode_started hdecode now⟩
  | lose run lost =>
    rcases Store.mem_of_running_claim hr hrunning with hold | ⟨r₀, hr₀, hid, hqueued, rfl⟩
    · exact Or.inl ⟨hold, fun _ hheld => by cases hheld⟩
    · have hany : (s.claim run.id now).1 = true :=
        List.any_eq_true.2 ⟨r₀, hr₀, by simp [Store.isQueued, hid, hqueued]⟩
      rw [lost] at hany
      cases hany
  | tell job run outcome written =>
    obtain ⟨hold, hne⟩ := Store.mem_of_running_finish hr hends hrunning
    exact Or.inl ⟨hold, fun run' hheld hid => by cases hheld; exact absurd hid hne⟩
  | rest stored run outcome =>
    obtain ⟨hold, hne⟩ := Store.mem_of_running_finish hr hends hrunning
    exact Or.inl ⟨hold, fun run' hheld hid => by cases hheld; exact absurd hid hne⟩
  | see run front => exact Or.inl ⟨hr, fun _ hheld => by cases hheld⟩
  | idle => exact Or.inl ⟨hr, fun _ hheld => by cases hheld⟩
  | load job run => exact Or.inl ⟨hr, fun _ hheld _ => hheld⟩
  | miss run outcome ended => exact Or.inl ⟨hr, fun _ hheld _ => hheld⟩

/-! ### Crews that hold what is going -/

namespace Crew

variable {ι ω : Type} {settings : SchedulerSettings} {s : Store} {d : Crew ι ω}

/-- **Every run that is going is held by a worker.** -/
def Staffed (d : Crew ι ω) : Prop :=
  ∀ r ∈ d.store.runs, r.hasStatus .running = true →
    ∃ w run, (d.worker w).held? = some run ∧ r.decode = .ok run

/-- A worker that holds what it held leaves a crew staffed. -/
theorem Staffed.move [DecidableEq ω] (h : d.Staffed) {w : ω} {p : Phase}
    (hp : p.held? = (d.worker w).held?) : (d.move w p).Staffed := by
  intro r hr hrunning
  obtain ⟨k, run, hheld, hdecode⟩ := h r hr hrunning
  refine ⟨k, run, ?_, hdecode⟩
  exact (Function.forall_update_iff d.worker
    fun k q => (d.worker k).held? = some run → q.held? = some run).2
    ⟨fun hw => hp.trans hw, fun _ _ hk => hk⟩ k hheld

/-- **Every turn keeps a crew staffed**, as long as the others leave runs to the workers, and
outcomes are stored. -/
theorem Staffed.turn [DecidableEq ι] [DecidableEq ω] (h : d.Staffed) (haccounted : d.Accounted s)
    (hrest : ∀ i, (d.rest i).Only fun _ st => st.LeavesGoing) {t : Turn ι ω}
    (ht : ∀ w ∈ t.failing?, (d.worker w).isStoring = false) : (d.turn settings t).Staffed := by
  obtain ⟨u, -, hturn⟩ | ⟨w, p, hp, hturn⟩ | ⟨w, e, rfl, hturn⟩ | ⟨w, now, a, p, hp, hturn⟩ :=
    d.turn_cases settings t
  · rw [hturn]
    intro r hr hrunning
    obtain ⟨hstore, -⟩ | ⟨i, β, st, next, -, hi, hu⟩ := d.toSession.turn_cases u
    · exact h r (hstore ▸ hr) hrunning
    · have hleaves := hrest i
      rw [hi] at hleaves
      have hafter : r ∈ (d.toSession.turn u).store.runs := hr
      rw [hu] at hafter
      exact h r (Statement.mem_of_running hleaves.1 hafter hrunning) hrunning
  · rw [hturn]
    exact h.move hp.held_eq
  · rw [hturn]
    exact h.move (Phase.held_fail_eq (ht w rfl))
  · rw [hturn]
    intro r hr hrunning
    rcases hp.running (haccounted.sees w) (haccounted.ends w) hr hrunning with
      ⟨hold, hkept⟩ | ⟨run, hheld, hdecode⟩
    · obtain ⟨k, run, hheld, hdecode⟩ := h r hold hrunning
      have hid : r.id = run.id := (RunRow.id_of_decode hdecode).symm
      refine ⟨k, run, ?_, hdecode⟩
      exact (Function.forall_update_iff d.worker
        fun k q => (d.worker k).held? = some run → q.held? = some run).2
        ⟨fun hw => hkept run hw hid, fun _ _ hk => hk⟩ k hheld
    · exact ⟨w, run, by simpa only [Crew.move, Function.update_self] using hheld, hdecode⟩

/-- What the others still have to do goes on to be what they may take up. -/
theorem only_turn [DecidableEq ι] [DecidableEq ω] {P : (γ : Type) → Statement γ → Prop}
    {t : Turn ι ω} (h : ∀ i, (d.rest i).Only P)
    (ht : ∀ i o, t = .party (.take i o) → o.program.Only P) (i : ι) :
    ((d.turn settings t).rest i).Only P := by
  obtain ⟨u, rfl, hturn⟩ | ⟨w, p, -, hturn⟩ | ⟨w, e, -, hturn⟩ | ⟨w, now, a, p, -, hturn⟩ :=
    d.turn_cases settings t
  · rw [hturn]
    exact Session.only_turn h (fun k o hu => ht k o (hu ▸ rfl)) i
  · rw [hturn]
    exact h i
  · rw [hturn]
    exact h i
  · rw [hturn]
    exact h i

/-- **No more runs are going than there are workers.** -/
theorem Staffed.countP_le {n : Nat} {d : Crew ι (Fin n)} (h : d.Staffed)
    (hkeyed : d.store.RunsKeyed) : d.store.runs.countP (·.hasStatus .running) ≤ n := by
  let held := (List.finRange n).filterMap fun w => (d.worker w).held?.map (·.id)
  have hnodup : ((d.store.runs.filter (·.hasStatus .running)).map (·.id)).Nodup :=
    (List.filter_sublist.map _).nodup hkeyed.nodup
  have hsubset : (d.store.runs.filter (·.hasStatus .running)).map (·.id) ⊆ held := by
    intro runId hmem
    obtain ⟨r, hr, rfl⟩ := List.mem_map.1 hmem
    obtain ⟨w, run, hheld, hdecode⟩ := h r (List.mem_of_mem_filter hr) (List.mem_filter.1 hr).2
    refine List.mem_filterMap.2 ⟨w, List.mem_finRange w, ?_⟩
    rw [hheld, Option.map_some, RunRow.id_of_decode hdecode]
  calc d.store.runs.countP (·.hasStatus .running)
      = ((d.store.runs.filter (·.hasStatus .running)).map (·.id)).length := by
        rw [List.length_map, List.countP_eq_length_filter]
    _ ≤ held.length := (hnodup.subperm hsubset).length_le
    _ ≤ (List.finRange n).length := List.length_filterMap_le _ _
    _ = n := List.length_finRange

end Crew

/-! ### A process -/

/-- **A process that starts**: its workers and its loop, and the others that reach the store. -/
structure Process (κ : Type) (n : Nat) extends Crew (Option κ) (Fin n) where
  /-- What is still to be done before the loop and the workers begin. -/
  starting : Program.Failing AccessError Unit
  /-- The process was asked to shut down. -/
  stopping : Bool

namespace Process

/-- **A turn** of a process, or of somebody else. -/
inductive Turn (κ : Type) (n : Nat) where
  /-- The next statement of the start is performed. -/
  | start
  /-- The loop begins a pass over the jobs. -/
  | pass (now : Int)
  /-- The next statement of the pass is performed. -/
  | loop
  /-- A worker stops waiting; it may have seen that the process shuts down. -/
  | wake (w : Fin n) (seen : Bool)
  /-- A worker makes its next access; it may have seen that the process shuts down. -/
  | work (w : Fin n) (seen : Bool) (now : Int)
  /-- The next access of a worker fails, or is given up. -/
  | fail (w : Fin n) (e : AccessError)
  /-- The task of a worker returns. -/
  | complete (w : Fin n) (c : RunContext) (result : TaskResult)
  /-- Whoever a worker was to tell has been told. -/
  | notified (w : Fin n)
  /-- Somebody else takes up an operation. -/
  | take (i : κ) (o : Operation)
  /-- Somebody else performs its next statement. -/
  | act (i : κ)
  /-- The process is asked to shut down. -/
  | shutdown

/-- The worker whose access fails in a turn. -/
def Turn.failing? {κ : Type} {n : Nat} : Turn κ n → Option (Fin n)
  | fail w _ => some w
  | _ => none

/-- The others neither take runs from the queue nor end them: they save, disable and delete jobs,
say, or pass over them. -/
def Turn.LeavesGoing {κ : Type} {n : Nat} : Turn κ n → Prop
  | take _ o => o.LeavesGoing
  | _ => True

variable {κ : Type} [DecidableEq κ] {n : Nat}

/-- A process that is about to start at a time, on a store with any content. -/
def opening (s : Store) (now : Int) : Process κ n :=
  { Crew.opening s with starting := Scheduler.start now, stopping := false }

/-- The crew takes a turn. -/
def proceed (settings : SchedulerSettings) (p : Process κ n) (t : Crew.Turn (Option κ) (Fin n)) :
    Process κ n :=
  { p with toCrew := p.toCrew.turn settings t }

/-- The crew takes a turn, if the start has gone well. -/
def underway (settings : SchedulerSettings) (p : Process κ n) (t : Crew.Turn (Option κ) (Fin n)) :
    Process κ n :=
  match p.starting with
  | .done (.ok ()) => p.proceed settings t
  | _ => p

/-- **A turn is taken.** -/
def turn (settings : SchedulerSettings) (p : Process κ n) : Turn κ n → Process κ n
  | .start =>
    match p.starting with
    | .done _ => p
    | .perform st next =>
      { p with
        toSession := p.toSession.perform st
        starting := next (st.run p.store).1 }
  | .pass now => p.underway settings (.party (.take none (.tick now)))
  | .loop => p.underway settings (.party (.act none))
  | .wake w seen => p.underway settings (.wake w (seen && p.stopping))
  | .work w seen now => p.underway settings (.work w (seen && p.stopping) now)
  | .fail w e => p.underway settings (.fail w e)
  | .complete w c result => p.underway settings (.complete w c result)
  | .notified w => p.underway settings (.notified w)
  | .take i o => p.proceed settings (.party (.take (some i) o))
  | .act i => p.proceed settings (.party (.act (some i)))
  | .shutdown => { p with stopping := true }

/-- Turns are taken one after the other. -/
def play (settings : SchedulerSettings) (p : Process κ n) (turns : List (Turn κ n)) : Process κ n :=
  turns.foldl (turn settings) p

/-- **Outcomes are stored**: no access that stores the outcome of a run fails, or is given up
because it takes longer than workers wait for it. -/
def Persists (settings : SchedulerSettings) (p : Process κ n) : List (Turn κ n) → Prop
  | [] => True
  | t :: turns =>
    (∀ w ∈ t.failing?, (p.worker w).isStoring = false) ∧
      (p.turn settings t).Persists settings turns

/-- Whether outcomes are stored can be found out. -/
instance decidablePersists (settings : SchedulerSettings) :
    (p : Process κ n) → (turns : List (Turn κ n)) → Decidable (p.Persists settings turns)
  | _, [] => .isTrue trivial
  | p, t :: turns =>
    have := decidablePersists settings (p.turn settings t) turns
    inferInstanceAs (Decidable ((∀ w ∈ t.failing?, (p.worker w).isStoring = false) ∧
      (p.turn settings t).Persists settings turns))

variable {settings : SchedulerSettings} {s : Store} {now : Int} {p : Process κ n}

/-- A start fails what is going, and then leaves runs alone. -/
theorem exists_start_eq (now : Int) : ∃ next,
    Scheduler.start now = .perform (.failRunning Scheduler.orphanMessage now) next ∧
      ∀ answer, (next answer).Only fun _ st => st.LeavesGoing := by
  refine ⟨_, rfl, fun answer => ?_⟩
  cases answer with
  | error e => trivial
  | ok count => exact Scheduler.only_reconcile trivial (fun _ _ _ => trivial) fun _ => trivial

/-- **What a process keeps**: its crew is accounted, the others leave runs to the workers, and
either the recovery is still to come, and the workers wait, or every run that is going is held. -/
structure Manned (s : Store) (now : Int) (p : Process κ n) : Prop where
  /-- The crew is accounted. -/
  accounted : p.toCrew.Accounted s
  /-- The others leave runs to the workers. -/
  rest : ∀ i, (p.rest i).Only fun _ st => st.LeavesGoing
  /-- The recovery is still to come, or every run that is going is held. -/
  recovery : (p.starting = Scheduler.start now ∧ (∀ w, p.worker w = .waiting) ∧
      ∀ a ∈ p.history, a.2.LeavesGoing) ∨
    (p.starting.Only (fun _ st => st.LeavesGoing) ∧ p.Staffed)

omit [DecidableEq κ] in
theorem manned_opening (s : Store) (now : Int) : (opening s now : Process κ n).Manned s now where
  accounted := Crew.accounted_opening s
  rest _ := trivial
  recovery := Or.inl ⟨rfl, fun _ => rfl, fun _ ha => nomatch ha⟩

namespace Manned

/-- The start goes on. -/
theorem start (h : p.Manned s now) : (p.turn settings .start).Manned s now := by
  cases hstarting : p.starting with
  | done result => simpa only [Process.turn, hstarting] using h
  | perform st next =>
    simp only [Process.turn, hstarting]
    have haccounted (hends : st.EndsRuns) :
        ({ p.toCrew with toSession := p.toSession.perform st } : Crew _ _).Accounted s :=
      h.accounted.session (h.accounted.tracked.perform hends)
        (Or.inr ⟨⟨_, st⟩, hends, rfl, rfl⟩)
    rcases h.recovery with ⟨hfirst, -, -⟩ | ⟨hleaves, hstaffed⟩
    · -- the first statement of a start is the recovery, after which no run is going
      obtain ⟨following, hstart, hfollowing⟩ := exists_start_eq now
      rw [hstarting, hstart] at hfirst
      cases hfirst
      refine ⟨haccounted trivial, h.rest, Or.inr ⟨hfollowing _, fun r hr hrunning => ?_⟩⟩
      have hnot : r.hasStatus .running = false := Store.not_running_of_failRunning hr
      rw [hnot] at hrunning
      cases hrunning
    · rw [hstarting] at hleaves
      refine ⟨haccounted hleaves.1.endsRuns, h.rest, Or.inr ⟨hleaves.2 _, fun r hr hrunning => ?_⟩⟩
      exact hstaffed r (Statement.mem_of_running hleaves.1 hr hrunning) hrunning

/-- A turn of the crew keeps a process manned once the recovery is over. -/
theorem proceed (h : p.Manned s now) (hs : s.RunsKeyed) {t : Crew.Turn (Option κ) (Fin n)}
    (ht : ∀ i o, t = .party (.take i o) → o.LeavesGoing)
    (hpersists : ∀ w ∈ t.failing?, (p.worker w).isStoring = false)
    (hstaffed : p.Staffed) (hstarting : p.starting.Only fun _ st => st.LeavesGoing) :
    (p.proceed settings t).Manned s now := by
  have hends : t.EndsRuns := by
    cases t with
    | party u =>
      cases u with
      | take i o => exact (ht i o rfl).endsRuns
      | act i => trivial
    | _ => trivial
  refine ⟨h.accounted.turn hs hends, ?_, Or.inr ⟨hstarting, ?_⟩⟩
  · exact Crew.only_turn h.rest fun i o ho => Operation.only_leavesGoing (ht i o ho)
  · exact hstaffed.turn h.accounted h.rest hpersists

/-- When the start has gone well, the loop and the workers keep a process manned. -/
theorem underway (h : p.Manned s now) (hs : s.RunsKeyed) {t : Crew.Turn (Option κ) (Fin n)}
    (ht : ∀ i o, t = .party (.take i o) → o.LeavesGoing)
    (hpersists : ∀ w ∈ t.failing?, (p.worker w).isStoring = false) :
    (p.underway settings t).Manned s now := by
  unfold Process.underway
  split
  · rename_i hstarting
    rcases h.recovery with ⟨hfirst, -, -⟩ | ⟨hleaves, hstaffed⟩
    · rw [hstarting] at hfirst
      cases hfirst
    · exact h.proceed hs ht hpersists hstaffed hleaves
  · exact h

/-- The others keep a process manned, before its recovery and after it. -/
theorem party (h : p.Manned s now) (hs : s.RunsKeyed) {u : Timetable.Turn (Option κ)}
    (hu : ∀ i o, u = .take i o → o.LeavesGoing) :
    (p.proceed settings (.party u)).Manned s now := by
  rcases h.recovery with ⟨hfirst, hwaiting, hhistory⟩ | ⟨hleaves, hstaffed⟩
  · have hends : u.EndsRuns := by
      cases u with
      | take i o => exact (hu i o rfl).endsRuns
      | act i => trivial
    have haccounted : (p.toCrew.turn settings (.party u)).Accounted s := h.accounted.turn hs hends
    refine ⟨haccounted, ?_, Or.inl ⟨hfirst, hwaiting, ?_⟩⟩
    · exact Session.only_turn h.rest fun i o ho => Operation.only_leavesGoing (hu i o ho)
    · obtain ⟨-, hsame⟩ | ⟨i, β, st, next, -, hi, hturn⟩ := p.toSession.turn_cases u
      · intro a ha
        exact hhistory a (hsame ▸ ha)
      · have hrest := h.rest i
        rw [hi] at hrest
        have hafter : ∀ a ∈ (p.toSession.turn u).history, a.2.LeavesGoing := by
          rw [hturn]
          exact List.forall_mem_append.2 ⟨hhistory, List.forall_mem_singleton.2 hrest.1⟩
        exact hafter
  · exact h.proceed hs (fun i o ho => hu i o (by cases ho; rfl)) nofun hstaffed hleaves

/-- **Every turn keeps a process manned**, in which the others leave runs to the workers and no
outcome fails to be stored. -/
theorem turn (h : p.Manned s now) (hs : s.RunsKeyed) {t : Turn κ n} (ht : t.LeavesGoing)
    (hpersists : ∀ w ∈ t.failing?, (p.worker w).isStoring = false) :
    (p.turn settings t).Manned s now := by
  cases t with
  | start => exact h.start
  | pass now => exact h.underway hs (fun i o ho => by cases ho; trivial) nofun
  | loop => exact h.underway hs (fun i o ho => nomatch ho) nofun
  | wake w seen => exact h.underway hs (fun i o ho => nomatch ho) nofun
  | work w seen now => exact h.underway hs (fun i o ho => nomatch ho) nofun
  | fail w e => exact h.underway hs (fun i o ho => nomatch ho) hpersists
  | complete w c result => exact h.underway hs (fun i o ho => nomatch ho) nofun
  | notified w => exact h.underway hs (fun i o ho => nomatch ho) nofun
  | take i o => exact h.party hs fun k o' ho => by cases ho; exact ht
  | act i => exact h.party hs fun k o ho => nomatch ho
  | shutdown => exact ⟨h.accounted, h.rest, h.recovery⟩

/-- **A process stays manned.** -/
theorem play (h : p.Manned s now) (hs : s.RunsKeyed) {turns : List (Turn κ n)}
    (hturns : ∀ t ∈ turns, t.LeavesGoing) (hpersists : p.Persists settings turns) :
    (p.play settings turns).Manned s now := by
  induction turns generalizing p with
  | nil => exact h
  | cons t turns ih =>
    obtain ⟨ht, hturns⟩ := List.forall_mem_cons.1 hturns
    exact ih (h.turn hs ht hpersists.1) hturns hpersists.2

end Manned

/-- **Every run that is going was claimed by the worker that holds it.**  A process starts on a
store with any content; its start, its loop and its workers take their turns in any order with
others, who save, disable and delete jobs, it may be asked to shut down at any moment, and accesses
of workers may fail, except those that store outcomes.  Once the runs of an earlier process have
failed, every run that is going is held by one worker, which is the only one that ever claimed it,
and no worker holds two; so no more runs are going than there are workers, with a single worker
never two of a job, and none when all workers are gone. -/
theorem running_held (hs : s.RunsKeyed) (now : Int)
    {turns : List (Turn κ settings.concurrency)} (hturns : ∀ t ∈ turns, t.LeavesGoing)
    (hpersists : (opening s now).Persists settings turns)
    (hrecovered : ⟨Nat, .failRunning Scheduler.orphanMessage now⟩ ∈
      ((opening s now).play settings turns).history) :
    (∀ r ∈ ((opening s now).play settings turns).store.runs, r.hasStatus .running = true →
      ∃ w run, (((opening s now).play settings turns).worker w).held? = some run ∧
        r = RunRow.ofRun run ∧
        ((opening s now).play settings turns).ClaimedBy s w r.id ∧
        (∀ w', ((opening s now).play settings turns).ClaimedBy s w' r.id → w' = w) ∧
        ∀ w' run', (((opening s now).play settings turns).worker w').held? = some run' →
          run'.id = r.id → w' = w) ∧
      (∀ w, ∀ r ∈ ((opening s now).play settings turns).store.runs,
        ∀ r' ∈ ((opening s now).play settings turns).store.runs,
        (((opening s now).play settings turns).worker w).held?.map (·.id) = some r.id →
        (((opening s now).play settings turns).worker w).held?.map (·.id) = some r'.id → r = r') ∧
      ((opening s now).play settings turns).store.runs.countP (·.hasStatus .running) ≤
        settings.concurrency ∧
      (settings.concurrency = 1 →
        ∀ jobId, ((opening s now).play settings turns).store.countRunning jobId ≤ 1) ∧
      ((∀ w, ((opening s now).play settings turns).worker w = .gone) →
        ∀ r ∈ ((opening s now).play settings turns).store.runs, r.hasStatus .running = false) := by
  have hmanned : ((opening s now).play settings turns).Manned s now :=
    (manned_opening s now).play hs hturns hpersists
  generalize (opening s now).play settings turns = p at hmanned hrecovered
  have haccounted := hmanned.accounted
  have hkeyed : p.store.RunsKeyed := haccounted.tracked.runsKeyed hs
  have hstaffed : p.Staffed := by
    refine (hmanned.recovery.resolve_left ?_).2
    rintro ⟨-, -, hleaves⟩
    exact hleaves _ hrecovered
  have hcount := hstaffed.countP_le hkeyed
  refine ⟨fun r hr hrunning => ?_, fun w r hr r' hr' hheld hheld' => ?_, hcount, ?_, ?_⟩
  · obtain ⟨w, run, hheld, hdecode⟩ := hstaffed r hr hrunning
    have hid : run.id = r.id := RunRow.id_of_decode hdecode
    have hclaimed : p.ClaimedBy s w r.id := hid ▸ haccounted.claimed w run hheld
    refine ⟨w, run, hheld, RunRow.eq_ofRun_of_decode hdecode, hclaimed, fun w' hw' => ?_, ?_⟩
    · exact haccounted.claimedBy_unique hs hw' hclaimed
    · intro w' run' hheld' hid'
      exact haccounted.holder_unique hs hheld hheld' (hid'.trans hid.symm)
  · exact hkeyed.row_unique hr hr' (Option.some.inj (hheld.symm.trans hheld'))
  · intro hone jobId
    calc p.store.countRunning jobId
        ≤ p.store.runs.countP (·.hasStatus .running) :=
          List.countP_mono_left fun r _ hr => (Bool.and_eq_true _ _ ▸ hr).2
      _ ≤ 1 := hone ▸ hcount
  · intro hgone r hr
    by_contra hrunning
    obtain ⟨w, run, hheld, -⟩ := hstaffed r hr (Bool.not_eq_false _ ▸ hrunning)
    rw [hgone w] at hheld
    cases hheld

/-- Two workers of one process. -/
def twoWorkers : SchedulerSettings := { concurrency := 2 }

/-- A process starts, and two jobs are saved; its loop fires one after the other, each of its
workers claims a run, one of them at its second attempt, and that one has begun to carry its run out
when the process is asked to shut down. -/
def twoAtWork : List (Turn Unit 2) :=
  [.take () (.saveJob (.interval "report" "true" 3600) 0), .act (), .act (),
    .start, .start, .start, .start,
    .take () (.saveJob (.interval "backup" "true" 5400) 0), .act (), .act (),
    .pass 0, .loop, .loop, .loop, .pass 3600, .loop, .loop, .loop, .pass 5400, .loop, .loop, .loop,
    .wake 0 false, .fail 0 .refused,
    .wake 0 false, .work 0 true 5400, .work 0 true 5400, .work 0 true 5400,
    .wake 1 true, .work 1 true 5400, .work 1 true 5400, .shutdown]

/-- Both runs are going, and each of the two workers holds one. -/
theorem running_held_by_two :
    ((opening .empty 0).play twoWorkers twoAtWork).store.runs.map (·.status) =
        ["running", "running"] ∧
      (∀ r ∈ ((opening .empty 0).play twoWorkers twoAtWork).store.runs,
        r.hasStatus .running = true →
        ∃ w run, (((opening .empty 0).play twoWorkers twoAtWork).worker w).held? = some run ∧
          r = RunRow.ofRun run) ∧
      ((opening .empty 0).play twoWorkers twoAtWork).store.runs.countP
        (·.hasStatus .running) ≤ 2 := by
  have hturns : ∀ t ∈ twoAtWork, t.LeavesGoing := by
    simp [twoAtWork, Turn.LeavesGoing, Operation.LeavesGoing]
  have hrecovered : ((opening .empty 0).play twoWorkers twoAtWork).history[2]? =
      some ⟨Nat, .failRunning Scheduler.orphanMessage 0⟩ := by
    with_unfolding_all rfl
  have hpersists : (opening .empty 0).Persists twoWorkers twoAtWork := by decide +kernel
  have h := @running_held Unit _ twoWorkers .empty Store.identified_empty.runsKeyed 0 twoAtWork
    hturns hpersists (List.mem_of_getElem? hrecovered)
  refine ⟨by decide +kernel, fun r hr hrunning => ?_, h.2.2.1⟩
  obtain ⟨w, run, hheld, hrow, -⟩ := h.1 r hr hrunning
  exact ⟨w, run, hheld, hrow⟩

end Process

end Timetable
