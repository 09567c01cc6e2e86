/-
**The life of a run.**

A run is created waiting in the queue or skipped.  What waits can be taken by a worker, what is
going can end, and nothing else ever happens to the row of a run until its job is deleted.  This
module says so of one statement — what it can do to the table of runs as a whole — and derives what
becomes of every single row.

Main definitions:

* `RunRow.Origin` — what is settled when a run is created, `RunRow.isOver` — a run has ended;
* `RunRow.Change` — **what one statement can do to a run**, `RunRow.Course` — what several can;
* `Statement.Yields` — the rows of runs that a statement leaves behind;
* `Store.RunsKeyed` — runs are told apart by identifiers that are not given again;
* `Store.Shows` — what a worker has seen in the queue still holds.

Main results:

* `Statement.exists_reshapes` — **what a statement does to the table of runs**;
* `Statement.yields_of_mem_runs` — where a single row comes from, and what was written to it;
* `Statement.runsKeyed_run` — identifiers of runs stay apart;
* `RunRow.Course.eq_of_isOver` — a run that has ended stays as it is;
* `Store.RunsKeyed.shows_of_oldestQueued` — what a worker sees in the queue is there.
-/

import Mathlib.Logic.Relation
import Timetable.Proofs.Store.Counting
import Timetable.Worker.Claim

set_option autoImplicit false
set_option relaxedAutoImplicit false

namespace Timetable

/-! ### One run -/

namespace RunRow

/-- **What is settled when a run is created.** -/
structure Origin where
  /-- The identifier. -/
  id : String
  /-- The job that fired. -/
  jobId : String
  /-- When the job had last been changed at that fire. -/
  jobUpdatedAt : Int
  /-- The fire that the run stands for. -/
  scheduledFor : Int
  /-- The number of the attempt. -/
  attempt : Int
  /-- When the run was created. -/
  createdAt : Int
  deriving Repr, DecidableEq

/-- The origin of a run. -/
def origin (r : RunRow) : Origin :=
  ⟨r.id, r.jobId, r.jobUpdatedAt, r.scheduledFor, r.attempt, r.createdAt⟩

/-- A run has ended: its status is one that ends runs. -/
def isOver (r : RunRow) : Bool := (RunStatus.parse? r.status).any RunStatus.isTerminal

theorem isOver_of_status {r : RunRow} {a : RunStatus} (h : r.status = a.name) :
    r.isOver = a.isTerminal := by
  simp [isOver, h]

/-- A run with the column values that are written at its end. -/
def ended (r : RunRow) (status : RunStatus) (error summary : Option String) (now : Int) : RunRow :=
  { r with status := status.name, finishedAt := some now, error, resultSummary := summary }

/-- **What one statement can do to a run**: nothing, or take it from the queue, or end it. -/
inductive Change (r : RunRow) : RunRow → Prop where
  /-- Nothing happens to the run. -/
  | stay : Change r r
  /-- A run that waits is taken from the queue. -/
  | take (now : Int) (waits : r.hasStatus .queued = true) : Change r (r.started now)
  /-- A run that is going ends. -/
  | finish (status : RunStatus) (error summary : Option String) (now : Int)
    (going : r.hasStatus .running = true) (ended : status.isTerminal = true) :
    Change r (r.ended status error summary now)

/-- What several statements can do to a run. -/
def Course : RunRow → RunRow → Prop := Relation.ReflTransGen Change

namespace Change

variable {r r' : RunRow}

theorem origin_eq (h : r.Change r') : r'.origin = r.origin := by
  cases h <;> rfl

theorem id_eq (h : r.Change r') : r'.id = r.id := congrArg Origin.id h.origin_eq

/-- A run only goes on from waiting to going and from going to its end. -/
theorem status_cases (h : r.Change r') :
    r'.status = r.status ∨
      r.hasStatus .queued = true ∧ r'.hasStatus .running = true ∨
      r.hasStatus .running = true ∧ r'.isOver = true := by
  cases h with
  | stay => exact Or.inl rfl
  | take now waits => exact Or.inr (Or.inl ⟨waits, by simp⟩)
  | finish status error summary now going ended =>
    exact Or.inr (Or.inr ⟨going, (isOver_of_status rfl).trans ended⟩)

/-- Only what waits was waiting, and nothing has happened to it. -/
theorem eq_of_queued (h : r.Change r') (hqueued : r'.hasStatus .queued = true) : r' = r := by
  cases h with
  | stay => rfl
  | take now waits => simp at hqueued
  | finish status error summary now going ended =>
    rw [hasStatus_of_status (a := status) rfl] at hqueued
    rw [of_decide_eq_true hqueued] at ended
    cases ended

/-- Nothing happens to a run that has ended. -/
theorem eq_of_isOver (h : r.Change r') (hover : r.isOver = true) : r' = r := by
  cases h with
  | stay => rfl
  | take now waits =>
    rw [isOver_of_status (hasStatus_iff.1 waits)] at hover
    cases hover
  | finish status error summary now going ended =>
    rw [isOver_of_status (hasStatus_iff.1 going)] at hover
    cases hover

end Change

namespace Course

variable {r r' : RunRow}

theorem origin_eq (h : r.Course r') : r'.origin = r.origin := by
  induction h with
  | refl => rfl
  | tail _ hlast ih => exact hlast.origin_eq.trans ih

theorem id_eq (h : r.Course r') : r'.id = r.id := congrArg Origin.id h.origin_eq

/-- A run that waits has never been taken. -/
theorem eq_of_queued (h : r.Course r') (hqueued : r'.hasStatus .queued = true) : r' = r := by
  induction h using Relation.ReflTransGen.head_induction_on with
  | refl => rfl
  | head hfirst _ ih =>
    rw [ih] at hqueued ⊢
    exact hfirst.eq_of_queued hqueued

/-- **A run that has ended stays as it is.** -/
theorem eq_of_isOver (h : r.Course r') (hover : r.isOver = true) : r' = r := by
  induction h with
  | refl => rfl
  | tail _ hlast ih =>
    rw [ih] at hlast
    exact hlast.eq_of_isOver hover

/-- A run that was going and still is has not changed. -/
theorem eq_of_running (h : r.Course r') (hbefore : r.hasStatus .running = true)
    (hafter : r'.hasStatus .running = true) : r' = r := by
  induction h using Relation.ReflTransGen.head_induction_on with
  | refl => rfl
  | @head r _ hfirst hrest ih =>
    cases hfirst with
    | stay => exact ih hbefore
    | take now waits =>
      rw [hasStatus_of_status (hasStatus_iff.1 waits)] at hbefore
      cases hbefore
    | finish status error summary now going ended =>
      -- what has ended stays so, and is not going
      have hover : (r.ended status error summary now).isOver = true :=
        (isOver_of_status rfl).trans ended
      rw [eq_of_isOver hrest hover, hasStatus_of_status (a := status) rfl] at hafter
      rw [of_decide_eq_true hafter] at ended
      cases ended

end Course

end RunRow

/-! ### One statement -/

namespace Statement

variable {α : Type}

/-- A statement ends runs only in a status that ends them. -/
def EndsRuns {α : Type} : Statement α → Prop
  | finish _ status _ _ _ => status.isTerminal = true
  | _ => True

/-- A statement neither takes a run from the queue nor ends one. -/
def LeavesGoing {α : Type} : Statement α → Prop
  | claim _ _ | finish _ _ _ _ _ | failRunning _ _ => False
  | _ => True

theorem LeavesGoing.endsRuns {st : Statement α} (h : st.LeavesGoing) : st.EndsRuns := by
  cases st with
  | finish runId status error summary now => exact h.elim
  | _ => trivial

/-- A statement deletes the job with an identifier. -/
def Deletes {α : Type} (jobId : String) : Statement α → Prop
  | deleteJob id => id = jobId
  | _ => False

/-- **What a statement does to the table of runs**: it drops runs of the job that it deletes,
changes runs in their places, and adds at most one run, which waits or was skipped. -/
structure Reshapes (st : Statement α) (s : Store) (keep : RunRow → Bool)
    (change : RunRow → RunRow) (added : List RunRow) : Prop where
  /-- The table consists of the runs that are kept and those that are added. -/
  runs_eq : (st.run s).2.runs = (s.runs.filter keep).map change ++ added
  /-- A run that is dropped is one of the job that is deleted. -/
  deletes_of_not_keep : ∀ r ∈ s.runs, keep r = false → st.Deletes r.jobId
  /-- Runs only change the way runs change. -/
  change : ∀ r : RunRow, r.Change (change r)
  /-- A run that is added has the next identifier. -/
  added_cases : added = [] ∧ (st.run s).2.runSerial = s.runSerial ∨
    ∃ run : Run, added = [RunRow.ofRun run] ∧ run.id = runIdOfSerial s.runSerial ∧
      (run.status = .queued ∨ run.status = .skipped) ∧ (st.run s).2.runSerial = s.runSerial + 1

variable {st : Statement α} {s : Store}

theorem Reshapes.of_runs_eq (h : (st.run s).2.runs = s.runs)
    (hserial : (st.run s).2.runSerial = s.runSerial) : st.Reshapes s (fun _ => true) id [] where
  runs_eq := by rw [h, List.filter_true, List.map_id, List.append_nil]
  deletes_of_not_keep := fun _ _ hkeep => by cases hkeep
  change := fun _ => .stay
  added_cases := Or.inl ⟨rfl, hserial⟩

theorem Reshapes.of_updateRuns {p : RunRow → Bool} {f : RunRow → RunRow}
    (h : (st.run s).2 = s.updateRuns p f) (hf : ∀ r : RunRow, p r = true → r.Change (f r)) :
    st.Reshapes s (fun _ => true) (fun r => if p r then f r else r) [] where
  runs_eq := by rw [h, List.filter_true, List.append_nil]; rfl
  deletes_of_not_keep := fun _ _ hkeep => by cases hkeep
  change := fun r => by
    split
    · exact hf r ‹_›
    · exact .stay
  added_cases := Or.inl ⟨rfl, by rw [h]; rfl⟩

/-- **Every statement reshapes the table of runs that way.** -/
theorem exists_reshapes (st : Statement α) (hends : st.EndsRuns) (s : Store) :
    ∃ keep change added, st.Reshapes s keep change added := by
  cases st with
  | saveJob spec now =>
    refine ⟨_, _, _, Reshapes.of_runs_eq ?_ ?_⟩ <;>
      · simp only [run, Store.saveJob]
        split <;> rfl
  | deleteJob jobId =>
    refine ⟨fun r => !(s.jobs.any (·.id == jobId) && r.jobId == jobId), id, [], ?_, ?_,
      fun _ => .stay, Or.inl ⟨rfl, rfl⟩⟩
    · simp only [run, Store.deleteJob, List.map_id, List.append_nil]
      split
      · rename_i hany
        simp only [hany, Bool.true_and]
        rfl
      · rename_i hany
        simp only [Bool.not_eq_true] at hany
        simp [hany]
    · intro r _ hkeep
      simp only [Bool.not_eq_false', Bool.and_eq_true, beq_iff_eq] at hkeep
      exact hkeep.2.symm
  | enqueue jobId now =>
    obtain ⟨hsame, -⟩ | ⟨e, hdisabled⟩ |
        ⟨r, fire, enabled, next, busy, -, -, -, -, -, hfired⟩ := s.enqueue_cases jobId now
    · exact ⟨_, _, _, Reshapes.of_runs_eq (congrArg Store.runs hsame)
        (congrArg Store.runSerial hsame)⟩
    · refine ⟨_, _, _, Reshapes.of_runs_eq ?_ ?_⟩ <;>
        · simp only [run, hdisabled]
          rfl
    · refine ⟨fun _ => true, id,
        [RunRow.ofRun (r.decode.firedRun busy (runIdOfSerial s.runSerial) fire now)], ?_,
        fun _ _ hkeep => (by cases hkeep), fun _ => .stay,
        Or.inr ⟨_, rfl, Job.firedRun_id .., ?_, ?_⟩⟩
      · simp only [run, hfired, List.filter_true, List.map_id]
        rfl
      · cases busy
        · exact Or.inl rfl
        · exact Or.inr rfl
      · simp only [run, hfired]
        rfl
  | claim runId now =>
    refine ⟨_, _, _, Reshapes.of_updateRuns (p := Store.isQueued runId) (f := (·.started now)) rfl
      fun r hr => ?_⟩
    simp only [Store.isQueued, Bool.and_eq_true] at hr
    exact .take now hr.2
  | finish runId status error summary now =>
    refine ⟨_, _, _, Reshapes.of_updateRuns (p := Store.isRunning runId)
      (f := (·.ended status error summary now)) rfl fun r hr => ?_⟩
    simp only [Store.isRunning, Bool.and_eq_true] at hr
    exact .finish status error summary now hr.2 hends
  | failRunning message now =>
    refine ⟨_, _, _, Reshapes.of_updateRuns (p := (·.hasStatus .running))
      (f := fun r => r.ended .failed (some message) r.resultSummary now) rfl fun r hr => ?_⟩
    exact .finish .failed (some message) r.resultSummary now hr rfl
  | _ => exact ⟨_, _, _, Reshapes.of_runs_eq rfl rfl⟩

/-- **The rows of runs that a statement leaves behind**: those that were there, as they were or with
what the statement writes to them, and the row of a fire. -/
inductive Yields (s : Store) : {α : Type} → Statement α → RunRow → Prop where
  /-- The row was there. -/
  | kept {α : Type} {st : Statement α} {r : RunRow} (old : r ∈ s.runs) : Yields s st r
  /-- The run was taken from the queue. -/
  | taken {runId : String} {now : Int} {r : RunRow} (old : r ∈ s.runs)
    (waits : r.hasStatus .queued = true) : Yields s (.claim runId now) (r.started now)
  /-- The run was going, and ended. -/
  | finished {runId : String} {status : RunStatus} {error summary : Option String} {now : Int}
    {r : RunRow} (old : r ∈ s.runs) (going : r.hasStatus .running = true) :
    Yields s (.finish runId status error summary now) (r.ended status error summary now)
  /-- The run was going, and failed with the other ones. -/
  | failed {message : String} {now : Int} {r : RunRow} (old : r ∈ s.runs)
    (going : r.hasStatus .running = true) :
    Yields s (.failRunning message now) (r.ended .failed (some message) r.resultSummary now)
  /-- A fire that had come was recorded. -/
  | fired {r : JobRow} {fire now : Int} (busy : Bool) (job : r ∈ s.jobs)
    (pending : r.decode.pendingFire? now = some fire) :
    Yields s (.enqueue r.id now)
      (.ofRun (r.decode.firedRun busy (runIdOfSerial s.runSerial) fire now))

/-- **Where a row of a run comes from**, and what was written to it. -/
theorem yields_of_mem_runs {r' : RunRow} (h : r' ∈ (st.run s).2.runs) : Yields s st r' := by
  have hupdate {p : RunRow → Bool} {f : RunRow → RunRow} (h : r' ∈ (s.updateRuns p f).runs) :
      r' ∈ s.runs ∨ ∃ r ∈ s.runs, p r = true ∧ f r = r' := by
    obtain ⟨r, hr, rfl⟩ := List.mem_map.1 h
    split
    · exact Or.inr ⟨r, hr, ‹_›, rfl⟩
    · exact Or.inl hr
  cases st with
  | saveJob spec now =>
    refine .kept ?_
    simp only [run, Store.saveJob] at h
    split at h <;> exact h
  | deleteJob id =>
    refine .kept ?_
    simp only [run, Store.deleteJob] at h
    split at h
    · exact List.mem_of_mem_filter h
    · exact h
  | enqueue id now =>
    obtain ⟨hsame, -⟩ | ⟨e, hdisabled⟩ |
        ⟨r, fire, enabled, next, busy, hr, rfl, hpending, -, -, hfired⟩ :=
      s.enqueue_cases id now
    · rw [run, hsame] at h
      exact .kept h
    · rw [run, hdisabled] at h
      exact .kept h
    · rw [run, hfired] at h
      rcases List.mem_append.1 h with hold | hnew
      · exact .kept hold
      · obtain rfl := List.mem_singleton.1 hnew
        exact .fired busy hr hpending
  | claim runId now =>
    obtain hold | ⟨r, hr, hqueued, rfl⟩ := hupdate h
    · exact .kept hold
    · exact .taken hr (Bool.and_eq_true_iff.1 hqueued).2
  | finish runId status error summary now =>
    obtain hold | ⟨r, hr, hgoing, rfl⟩ := hupdate h
    · exact .kept hold
    · exact .finished hr (Bool.and_eq_true_iff.1 hgoing).2
  | failRunning message now =>
    obtain hold | ⟨r, hr, hgoing, rfl⟩ := hupdate h
    · exact .kept hold
    · exact .failed hr hgoing
  | _ => exact .kept h

/-- Identifiers of runs are given in order. -/
theorem runSerial_le_run (st : Statement α) (hends : st.EndsRuns) (s : Store) :
    s.runSerial ≤ (st.run s).2.runSerial := by
  obtain ⟨keep, change, added, h⟩ := st.exists_reshapes hends s
  rcases h.added_cases with ⟨-, hserial⟩ | ⟨run, -, -, -, hserial⟩ <;> omega

end Statement

/-! ### Identifiers of runs -/

namespace Store

/-- **Runs are told apart by their identifiers**, and those that are yet to be given are on no
run. -/
structure RunsKeyed (s : Store) : Prop where
  /-- No two runs have the same identifier. -/
  nodup : (s.runs.map (·.id)).Nodup
  /-- Identifiers to come are on no run. -/
  fresh : ∀ k, s.runSerial ≤ k → runIdOfSerial k ∉ s.runs.map (·.id)

theorem Identified.runsKeyed {s : Store} (h : s.Identified) : s.RunsKeyed where
  nodup := h.runs_nodup
  fresh := by
    intro k hk hmem
    obtain ⟨j, hj, heq⟩ := h.runs_issued _ hmem
    have := runIdOfSerial_injective heq
    omega

/-- Rows of runs with the same identifier are the same. -/
theorem RunsKeyed.row_unique {s : Store} (h : s.RunsKeyed) {r r' : RunRow} (hr : r ∈ s.runs)
    (hr' : r' ∈ s.runs) (heq : r.id = r'.id) : r = r' :=
  List.inj_on_of_nodup_map h.nodup hr hr' heq

/-- An identifier is not one of those to come. -/
def Issued (s : Store) (runId : String) : Prop := ∀ k, s.runSerial ≤ k → runId ≠ runIdOfSerial k

theorem RunsKeyed.issued {s : Store} (h : s.RunsKeyed) {r : RunRow} (hr : r ∈ s.runs) :
    s.Issued r.id :=
  fun k hk heq => h.fresh k hk (heq ▸ List.mem_map_of_mem hr)

theorem Issued.run {α : Type} {st : Statement α} {s : Store} {runId : String} (h : s.Issued runId)
    (hends : st.EndsRuns) : (st.run s).2.Issued runId :=
  fun k hk => h k (Nat.le_trans (st.runSerial_le_run hends s) hk)

/-- A run was seen in the queue: as long as its row waits there, it is the one that was seen. -/
structure Shows (s : Store) (run : Run) : Prop where
  /-- Its identifier belongs to it. -/
  issued : s.Issued run.id
  /-- Its row is as it was. -/
  decode : ∀ r ∈ s.runs, r.id = run.id → r.hasStatus .queued = true → r.decode = .ok run

end Store

namespace Statement

variable {α : Type} {st : Statement α} {s : Store}

/-- **Where a run comes from**: it was there before the statement, or the statement created it. -/
theorem mem_runs_run (hends : st.EndsRuns) {r' : RunRow} (hr' : r' ∈ (st.run s).2.runs) :
    (∃ r ∈ s.runs, r.Change r') ∨
      r'.id = runIdOfSerial s.runSerial ∧ s.runSerial < (st.run s).2.runSerial ∧
        (r'.hasStatus .queued = true ∨ r'.hasStatus .skipped = true) := by
  obtain ⟨keep, change, added, h⟩ := st.exists_reshapes hends s
  rw [h.runs_eq] at hr'
  rcases List.mem_append.1 hr' with hold | hnew
  · obtain ⟨r, hr, rfl⟩ := List.mem_map.1 hold
    exact Or.inl ⟨r, List.mem_of_mem_filter hr, h.change r⟩
  · rcases h.added_cases with ⟨rfl, -⟩ | ⟨run, rfl, hid, hstatus, hserial⟩
    · cases hnew
    · obtain rfl := List.mem_singleton.1 hnew
      refine Or.inr ⟨hid, by omega, ?_⟩
      simpa only [RunRow.hasStatus_ofRun, decide_eq_true_eq] using hstatus

/-- What a worker has seen in the queue goes on to hold: no statement changes a run that waits. -/
theorem shows_run (hends : st.EndsRuns) {run : Run} (h : s.Shows run) : (st.run s).2.Shows run where
  issued := h.issued.run hends
  decode := by
    intro r' hr' hid hqueued
    rcases mem_runs_run hends hr' with ⟨r, hr, hchange⟩ | ⟨hnew, -, -⟩
    · obtain rfl := hchange.eq_of_queued hqueued
      exact h.decode r' hr hid hqueued
    · exact absurd (hid.symm.trans hnew) (h.issued _ (Nat.le_refl _))

/-- **Where a run goes**: it is still there after the statement, or its job was deleted. -/
theorem mem_runs_or_deletes (hends : st.EndsRuns) {r : RunRow} (hr : r ∈ s.runs) :
    (∃ r' ∈ (st.run s).2.runs, r.Change r') ∨ st.Deletes r.jobId := by
  obtain ⟨keep, change, added, h⟩ := st.exists_reshapes hends s
  cases hkeep : keep r with
  | false => exact Or.inr (h.deletes_of_not_keep r hr hkeep)
  | true =>
    refine Or.inl ⟨change r, ?_, h.change r⟩
    rw [h.runs_eq]
    exact List.mem_append_left _ (List.mem_map_of_mem (List.mem_filter.2 ⟨hr, hkeep⟩))

/-- What has the identifier of a run after a statement is that run. -/
theorem change_run (hs : s.RunsKeyed) (hends : st.EndsRuns) {r r' : RunRow} (hr : r ∈ s.runs)
    (hr' : r' ∈ (st.run s).2.runs) (hid : r'.id = r.id) : r.Change r' := by
  rcases mem_runs_run hends hr' with ⟨r₀, hr₀, hchange⟩ | ⟨hnew, -, -⟩
  · rwa [hs.row_unique hr hr₀ (hid.symm.trans hchange.id_eq)]
  · exact absurd (hid.symm.trans hnew) (hs.issued hr _ (Nat.le_refl _))

/-- **A run is created** waiting or skipped, under the next identifier. -/
theorem created_run (hends : st.EndsRuns) {r' : RunRow} (hr' : r' ∈ (st.run s).2.runs)
    (hnew : ∀ r ∈ s.runs, r.id ≠ r'.id) :
    r'.id = runIdOfSerial s.runSerial ∧
      (r'.hasStatus .queued = true ∨ r'.hasStatus .skipped = true) := by
  rcases mem_runs_run hends hr' with ⟨r, hr, hchange⟩ | ⟨hid, -, hstatus⟩
  · exact absurd hchange.id_eq.symm (hnew r hr)
  · exact ⟨hid, hstatus⟩

/-- **A run goes** with its job. -/
theorem deletes_of_gone (hends : st.EndsRuns) {r : RunRow} (hr : r ∈ s.runs)
    (hgone : ∀ r' ∈ (st.run s).2.runs, r'.id ≠ r.id) : st.Deletes r.jobId := by
  refine (mem_runs_or_deletes hends hr).resolve_left ?_
  rintro ⟨r', hr', hchange⟩
  exact hgone r' hr' hchange.id_eq

/-- **Identifiers of runs stay apart.** -/
theorem runsKeyed_run (hends : st.EndsRuns) (hs : s.RunsKeyed) : (st.run s).2.RunsKeyed := by
  obtain ⟨keep, change, added, h⟩ := st.exists_reshapes hends s
  have hold : (((s.runs.filter keep).map change).map (·.id)).Sublist (s.runs.map (·.id)) := by
    have hids : ((s.runs.filter keep).map change).map (·.id) = (s.runs.filter keep).map (·.id) := by
      rw [List.map_map]
      exact List.map_congr_left fun r _ => (h.change r).id_eq
    rw [hids]
    exact List.filter_sublist.map _
  have hle := st.runSerial_le_run hends s
  constructor
  · rw [h.runs_eq, List.map_append]
    rcases h.added_cases with ⟨rfl, -⟩ | ⟨run, rfl, hid, -, -⟩
    · simpa using hold.nodup hs.nodup
    · refine List.nodup_append'.2 ⟨hold.nodup hs.nodup, List.nodup_singleton _, ?_⟩
      refine List.disjoint_singleton.2 fun hmem => hs.fresh s.runSerial (Nat.le_refl _) ?_
      rw [← hid]
      exact hold.subset hmem
  · intro k hk hmem
    rw [h.runs_eq, List.map_append] at hmem
    rcases List.mem_append.1 hmem with hmem | hmem
    · exact hs.fresh k (Nat.le_trans hle hk) (hold.subset hmem)
    · rcases h.added_cases with ⟨rfl, -⟩ | ⟨run, rfl, hid, -, hserial⟩
      · cases hmem
      · have heq : k = s.runSerial :=
          runIdOfSerial_injective ((List.mem_singleton.1 hmem).trans hid)
        omega

end Statement

/-! ### What is seen in the queue -/

namespace RunRow

/-- **Reading a row loses nothing**: the row is the row of the run that it is read as. -/
theorem eq_ofRun_of_decode {r : RunRow} {run : Run} (h : r.decode = .ok run) : r = ofRun run := by
  unfold decode at h
  split at h
  · cases h
  · rename_i status hstatus
    split at h
    · rename_i hattempt
      cases h
      have hname : status.name = r.status := by simpa using List.find?_some hstatus
      have hnumber : (r.attempt.toNat : Int) = r.attempt := Int.toNat_of_nonneg hattempt.1
      simp only [ofRun, hname, hnumber]
    · cases h

/-- The attempt of a run that was read can be written. -/
theorem attempt_le_of_decode {r : RunRow} {run : Run} (h : r.decode = .ok run) :
    run.attempt ≤ Text.uint32Max := by
  unfold decode at h
  split at h
  · cases h
  · split at h
    next hattempt =>
      cases h
      exact Int.toNat_le.2 hattempt.2
    next => cases h

/-- A row that is read names its own run. -/
theorem id_of_decode {r : RunRow} {run : Run} (h : r.decode = .ok run) : run.id = r.id := by
  rw [eq_ofRun_of_decode h]
  rfl

/-- A run that is taken is read as the run that was claimed. -/
theorem decode_started {r : RunRow} {run : Run} (h : r.decode = .ok run) (now : Int) :
    (r.started now).decode = .ok (run.claimed now) := by
  unfold decode at h
  split at h
  · cases h
  · split at h
    · rename_i hattempt
      cases h
      simp only [decode, started, RunStatus.parse?_name, hattempt, and_self, if_true]
      rfl
    · cases h

end RunRow

namespace Store

theorem frontOfQueue_mem {rows : List RunRow} {r : RunRow} (h : frontOfQueue rows = some r) :
    r ∈ rows := by
  induction rows generalizing r with
  | nil => cases h
  | cons r₀ rest ih =>
    unfold frontOfQueue at h
    split at h
    · cases h
      exact List.mem_cons_self
    · rename_i best hbest
      split at h <;> cases h
      · exact List.mem_cons_of_mem _ (ih hbest)
      · exact List.mem_cons_self

/-- A run that is seen at the front of the queue is read from the row there. -/
theorem exists_front_of_oldestQueued {s : Store} {run : Run}
    (h : s.oldestQueued? = .ok (some run)) :
    ∃ front, s.oldestQueuedRow? = some front ∧ front.decode = .ok run := by
  unfold oldestQueued? at h
  split at h
  · cases h
  · rename_i front hfront
    refine ⟨front, hfront, ?_⟩
    cases hread : front.decode <;> rw [hread] at h <;> cases h
    rfl

/-- **What a worker sees at the front of the queue is there.** -/
theorem RunsKeyed.shows_of_oldestQueued {s : Store} (hs : s.RunsKeyed) {run : Run}
    (h : s.oldestQueued? = .ok (some run)) : s.Shows run := by
  obtain ⟨front, hfront, hread⟩ := exists_front_of_oldestQueued h
  have hmem : front ∈ s.runs := List.mem_of_mem_filter (frontOfQueue_mem hfront)
  have hid := RunRow.id_of_decode hread
  refine ⟨hid ▸ hs.issued hmem, fun r' hr' hid' _ => ?_⟩
  rwa [hs.row_unique hr' hmem (hid'.trans hid)]

end Store

end Timetable
