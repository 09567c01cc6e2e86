/-
**A pass, job by job.**

A pass goes over the jobs twice, and a reconciliation once.  Within representable time neither ends
early, and each job is dealt with on its own: what becomes of its row, and which run is added for
it, depends on that row, on whether a run of the job is going, and on the time.  In particular jobs
do not influence one another.

Main definitions:

* `Store.FiredInto` — what becomes of the tables when some jobs are fired;
* `Store.PassedInto` — what becomes of the tables in a pass.

Main results:

* `Store.runStore_rows` — a loop that deals with each row by itself;
* `Store.runStore_reconcile`, `Store.passedInto_tick` — **a reconciliation and a pass, job by job**;
* `Store.tick_alone` — **jobs do not influence one another in a pass**.
-/

import Timetable.Proofs.InterruptedPass
import Timetable.Proofs.Pass.Rows
import Timetable.Proofs.Store.Numbered

set_option autoImplicit false
set_option relaxedAutoImplicit false

namespace Timetable

/-! ### One row after the other -/

namespace Store

open Program Scheduler

variable {s x s' : Store} {r : JobRow} {f g : JobRow → JobRow} {id : String} {ids : List String}
  {fire now : Int}

theorem map_id_map (hg : ∀ r, (g r).id = r.id) (rows : List JobRow) :
    (rows.map g).map (·.id) = rows.map (·.id) := by
  rw [List.map_map]
  exact List.map_congr_left fun r _ => hg r

theorem jobRow?_of_mem (hs : (s.jobs.map (·.id)).Nodup) (hr : r ∈ s.jobs) :
    s.jobRow? r.id = some r :=
  (find?_key_eq_some_iff hs).2 ⟨hr, rfl⟩

theorem updateJob_congr (h : ∀ y ∈ s.jobs, y.id = id → f y = g y) :
    s.updateJob id f = s.updateJob id g := by
  unfold updateJob
  congr 1
  refine List.map_congr_left fun y hy => ?_
  by_cases hid : y.id = id
  · simp [hid, h y hy hid]
  · simp [hid]

theorem updateJob_eq_self (h : ∀ y ∈ s.jobs, y.id = id → f y = y) : s.updateJob id f = s := by
  rw [updateJob_congr (g := fun y => y) h]
  simp [updateJob]

/-- Changing a row leaves the rows before and after it alone. -/
theorem updateJob_of_split {before after : List JobRow} (hkey : (s.jobs.map (·.id)).Nodup)
    (hjobs : s.jobs = before ++ r :: after) (f : JobRow → JobRow) :
    s.updateJob r.id f = { s with jobs := before ++ f r :: after } := by
  rw [hjobs, List.map_append, List.map_cons, List.nodup_middle, List.nodup_cons] at hkey
  have hother (rows : List JobRow) (hrows : ∀ y ∈ rows, y.id ≠ r.id) :
      (rows.map fun y => if y.id == r.id then f y else y) = rows := by
    refine (List.map_congr_left fun y hy => ?_).trans (List.map_id rows)
    simp [hrows y hy]
  have hbefore : ∀ y ∈ before, y.id ≠ r.id := fun y hy h => hkey.1 <|
    List.mem_append_left _ (h ▸ List.mem_map_of_mem hy)
  have hafter : ∀ y ∈ after, y.id ≠ r.id := fun y hy h => hkey.1 <|
    List.mem_append_right _ (h ▸ List.mem_map_of_mem hy)
  rw [updateJob, hjobs, List.map_append, List.map_cons, hother before hbefore, hother after hafter]
  simp

/-- The rows with the given identifiers are changed. -/
def updateJobs (s : Store) (ids : List String) (g : JobRow → JobRow) : Store :=
  { s with jobs := s.jobs.map fun r => if r.id ∈ ids then g r else r }

theorem updateJobs_cons (hg : ∀ r, (g r).id = r.id) (hid : id ∉ ids) (s : Store) :
    (s.updateJob id g).updateJobs ids g = s.updateJobs (id :: ids) g := by
  simp only [updateJobs, updateJob, List.map_map]
  congr 1
  refine List.map_congr_left fun r _ => ?_
  by_cases hr : r.id = id
  · simp [hr, hg, hid]
  · simp [hr]

/-- **A loop over rows that deals with each of them as the same function does.**  The rows are those
of the store, and no statement of the loop is about a row that is yet to come. -/
theorem runStore_rows {loop : List Job → Failing AccessError Unit} (hg : ∀ r, (g r).id = r.id)
    (hnil : loop [] = done (.ok ())) {rows : List JobRow}
    (hcons : ∀ r ∈ rows, ∀ rest (x : Store), (∀ y ∈ x.jobs, y.id = r.id → y = r) →
      (loop (r.decode :: rest)).runStore x = (loop rest).runStore (x.updateJob r.id g))
    (hrows : (rows.map (·.id)).Nodup) (hcurrent : ∀ r ∈ rows, ∀ y ∈ s.jobs, y.id = r.id → y = r) :
    (loop (rows.map JobRow.decode)).runStore s = (.ok (), s.updateJobs (rows.map (·.id)) g) := by
  -- what is still to come is current as long as only rows that are done have been changed
  induction rows generalizing s with
  | nil =>
    rw [List.map_nil, hnil]
    simp [updateJobs, runStore, Program.run]
  | cons r rest ih =>
    obtain ⟨hnew, hrest⟩ := List.nodup_cons.1 hrows
    have hcurrent' : ∀ q ∈ rest, ∀ y ∈ (s.updateJob r.id g).jobs, y.id = q.id → y = q := by
      intro q hq y hy hid
      rcases mem_updateJob hy with ⟨y₀, -, hid₀, rfl⟩ | ⟨hy, -⟩
      · have hmem : r.id ∈ rest.map (·.id) := by
          rw [← hid₀, ← hg, hid]
          exact List.mem_map_of_mem hq
        exact absurd hmem hnew
      · exact hcurrent q (List.mem_cons_of_mem r hq) y hy hid
    rw [List.map_cons, hcons r List.mem_cons_self _ s (hcurrent r List.mem_cons_self),
      ih (fun q hq => hcons q (List.mem_cons_of_mem r hq)) hrest hcurrent', updateJobs_cons hg hnew]
    rfl

/-- What changes the selected rows of a store changes the rows that pass the test. -/
theorem updateJobs_filter (hs : (s.jobs.map (·.id)).Nodup) (p : JobRow → Bool) :
    s.updateJobs ((s.jobs.filter p).map (·.id)) g =
      { s with jobs := s.jobs.map fun r => if p r then g r else r } := by
  unfold updateJobs
  congr 1
  refine List.map_congr_left fun r hr => ?_
  have hiff : r.id ∈ (s.jobs.filter p).map (·.id) ↔ p r = true := by
    constructor
    · intro hmem
      obtain ⟨y, hy, hid⟩ := List.mem_map.1 hmem
      obtain ⟨hy, hp⟩ := List.mem_filter.1 hy
      rwa [← List.inj_on_of_nodup_map hs hy hr hid]
    · intro hp
      exact List.mem_map_of_mem (List.mem_filter.2 ⟨hr, hp⟩)
  simp only [hiff]

/-! ### Computing next fires, and reconciling, job by job -/

theorem setNextRun_eq (h : ∀ y ∈ x.jobs, y.id = r.id → y = r) {next : Int}
    (hnext : r.decode.nextFire now = .ok next) :
    x.setNextRun r.id (some next) now = x.updateJob r.id (·.filled now) := by
  refine updateJob_congr fun y hy hid => ?_
  rw [h y hy hid, JobRow.filled, hnext]

theorem runStore_fillNextRuns_cons (hfits : Cron.WindowFits now) (rest : List Job)
    (hr : ∀ y ∈ x.jobs, y.id = r.id → y = r) :
    (fillNextRuns now (r.decode :: rest)).runStore x =
      (fillNextRuns now rest).runStore (x.updateJob r.id (·.filled now)) := by
  rw [fillNextRuns]
  rcases hnext : r.decode.nextFire now with (e | _) | next
  · have hdisable : x.disableInvalid r.id now = x.updateJob r.id (·.filled now) :=
      updateJob_congr fun y hy hid => by
        rw [hr y hy hid, JobRow.filled, hnext]
        rfl
    rw [← hdisable]
    rfl
  · exact absurd hnext (r.decode.nextFire_ne_outOfTime hfits)
  · rw [← setNextRun_eq hr hnext]
    rfl

/-- **The first half of a pass, job by job.** -/
theorem runStore_fillNextRuns (hs : (s.jobs.map (·.id)).Nodup) (hfits : Cron.WindowFits now) :
    (fillNextRuns now s.jobsWithoutNextRun).runStore s =
      (.ok (), { s with jobs := s.jobs.map (·.refilled now) }) := by
  have hrows : ((s.jobs.filter JobRow.isMissing).map (·.id)).Nodup :=
    (List.filter_sublist.map _).nodup hs
  have hcurrent : ∀ r ∈ s.jobs.filter JobRow.isMissing, ∀ y ∈ s.jobs, y.id = r.id → y = r :=
    fun r hr y hy hid => List.inj_on_of_nodup_map hs hy (List.mem_filter.1 hr).1 hid
  have hloop := runStore_rows (fun r => r.filled_id) rfl
    (fun r _ rest x hr => runStore_fillNextRuns_cons hfits rest hr) hrows hcurrent
  rw [updateJobs_filter hs] at hloop
  exact hloop

theorem runStore_reconcileJobs_cons (hfits : Cron.WindowFits now) (henabled : r.enabled = 1)
    (rest : List Job) (hr : ∀ y ∈ x.jobs, y.id = r.id → y = r) :
    (reconcileJobs now (r.decode :: rest)).runStore x =
      (reconcileJobs now rest).runStore (x.updateJob r.id (·.reconciled now)) := by
  rw [reconcileJobs]
  rcases hnext : r.decode.nextFire now with (e | _) | next
  · have hdisable : x.disableInvalid r.id now = x.updateJob r.id (·.reconciled now) :=
      updateJob_congr fun y hy hid => by
        rw [hr y hy hid, JobRow.reconciled, if_pos henabled, hnext]
        rfl
    rw [← hdisable]
    rfl
  · exact absurd hnext (r.decode.nextFire_ne_outOfTime hfits)
  · dsimp only
    by_cases hstale : isStale now r.decode
    · have hset : x.updateJob r.id (·.filled now) = x.updateJob r.id (·.reconciled now) :=
        updateJob_congr fun y hy hid => by
          simp only [hr y hy hid, JobRow.reconciled, henabled, hnext, hstale, if_true]
      rw [if_pos hstale, ← hset, ← setNextRun_eq hr hnext]
      rfl
    · have hsame : x.updateJob r.id (·.reconciled now) = x :=
        updateJob_eq_self fun y hy hid => by
          rw [hr y hy hid, JobRow.reconciled, if_pos henabled, hnext]
          exact if_neg hstale
      rw [if_neg hstale, hsame]

/-- **A reconciliation, job by job.** -/
theorem runStore_reconcile (hs : (s.jobs.map (·.id)).Nodup) (hfits : Cron.WindowFits now) :
    (reconcile now).runStore s = (.ok (), { s with jobs := s.jobs.map (·.reconciled now) }) := by
  let rows := s.jobs.filter fun r => r.enabled == 1
  obtain ⟨sorted, hsorted, hperm⟩ : ∃ sorted : List JobRow,
      s.enabledJobs = sorted.map JobRow.decode ∧ sorted.Perm rows :=
    ⟨_, rfl, List.mergeSort_perm rows _⟩
  have hrows : (sorted.map (·.id)).Nodup :=
    (hperm.map _).nodup_iff.2 ((List.filter_sublist.map _).nodup hs)
  have hmem (r : JobRow) (hr : r ∈ sorted) : r ∈ s.jobs ∧ r.enabled = 1 := by
    simpa using List.mem_filter.1 (hperm.mem_iff.1 hr)
  have hcurrent : ∀ r ∈ sorted, ∀ y ∈ s.jobs, y.id = r.id → y = r :=
    fun r hr y hy hid => List.inj_on_of_nodup_map hs hy (hmem r hr).1 hid
  have hloop := runStore_rows (fun r => r.reconciled_id) rfl
    (fun r hr rest x => runStore_reconcileJobs_cons hfits (hmem r hr).2 rest) hrows hcurrent
  -- the order of the rows plays no part in what becomes of them
  have hids : s.updateJobs (sorted.map (·.id)) (·.reconciled now) =
      s.updateJobs (rows.map (·.id)) (·.reconciled now) := by
    simp only [updateJobs, (hperm.map (·.id)).mem_iff]
  have hothers : ∀ r ∈ s.jobs, (if (r.enabled == 1) = true then r.reconciled now else r) =
      r.reconciled now := by
    intro r _
    by_cases henabled : r.enabled = 1
    · simp [henabled]
    · simp [henabled, JobRow.reconciled]
  rw [hids, updateJobs_filter hs, List.map_congr_left hothers] at hloop
  rw [reconcile, runStore_andThen_ok (y := s) rfl, hsorted]
  exact hloop

/-! ### Firing jobs, one after the other -/

/-- **What becomes of the tables when the jobs with the given identifiers are fired**: their rows
are discharged, and each of them may add one run. -/
structure FiredInto (s : Store) (now : Int) (ids : List String) (s' : Store) : Prop where
  /-- The rows with the identifiers are discharged. -/
  jobs : s'.jobs = s.jobs.map fun r => if r.id ∈ ids then r.discharged now else r
  /-- Runs are added, for each row the one that it is due. -/
  runs : ∃ added, s'.runs = s.runs ++ added ∧ (∀ run ∈ added, run.jobId ∈ ids) ∧
    ∀ r ∈ s.jobs, r.id ∈ ids → ∃ runId, added.filter (·.jobId == r.id) =
      r.dueRuns (0 < s.countRunning r.id) runId now
  /-- The number of the next job stays. -/
  jobSerial : s'.jobSerial = s.jobSerial

theorem FiredInto.refl (s : Store) (now : Int) : s.FiredInto now [] s where
  jobs := by simp
  runs := ⟨[], by simp⟩
  jobSerial := rfl

theorem FiredInto.single (hs : (s.jobs.map (·.id)).Nodup) (hr : r ∈ s.jobs) (runId : String)
    (hjobs : s'.jobs = (s.updateJob r.id f).jobs) (hf : f r = r.discharged now)
    (hruns : s'.runs = s.runs ++ r.dueRuns (0 < s.countRunning r.id) runId now)
    (hserial : s'.jobSerial = s.jobSerial) : s.FiredInto now [r.id] s' where
  jobs := by
    rw [hjobs]
    refine List.map_congr_left fun y hy => ?_
    by_cases hid : y.id = r.id
    · rw [List.inj_on_of_nodup_map hs hy hr hid]
      simp [hf]
    · simp [hid]
  runs := by
    refine ⟨_, hruns, fun run hrun => by simp [JobRow.dueRuns_jobId hrun],
      fun y hy hid => ⟨runId, ?_⟩⟩
    rw [List.inj_on_of_nodup_map hs hy hr (List.mem_singleton.1 hid), List.filter_eq_self]
    intro run hrun
    simpa using JobRow.dueRuns_jobId hrun
  jobSerial := hserial

/-- **Firing a job that is due.** -/
theorem enqueue_due (hs : (s.jobs.map (·.id)).Nodup) (hr : r ∈ s.jobs)
    (hdue : r.due? now = some fire) (hfits : Cron.WindowFits now) :
    ∃ outcome, (s.enqueue r.id now).1 = .ok outcome ∧
      s.FiredInto now [r.id] (s.enqueue r.id now).2 := by
  have hrow : s.jobWithId? r.id = some r.decode := by rw [jobWithId?, jobRow?_of_mem hs hr]; rfl
  have hpending := JobRow.pendingFire?_of_due? hdue
  have hle : fire ≤ now := (JobRow.due?_eq_some.1 hdue).2.2
  have hne := r.decode.takeFire_ne_outOfTime (hfits.mono hle)
  have hdisabled (e : DefinitionError) (htake : r.decode.takeFire fire = .error (.definition e)) :
      s.FiredInto now [r.id] (s.disableInvalid r.id now) := by
    refine .single hs hr "" rfl ?_ ?_ rfl
    · simp only [JobRow.discharged, hdue, JobRow.fired, htake]
      rfl
    · simp only [JobRow.dueRuns, hdue, JobRow.firedRuns, htake, List.append_nil]
      rfl
  unfold enqueue
  simp only [hrow, hpending]
  unfold Job.takeFire at hne hdisabled
  -- an unknown policy, then no following fire, then the fire that is taken
  split
  · rename_i e hpolicy
    rw [hpolicy] at hdisabled
    exact ⟨_, rfl, hdisabled e rfl⟩
  · rename_i hpolicy
    rw [hpolicy] at hne hdisabled
    split
    · rename_i hafter
      exact absurd hafter hne
    · rename_i e hafter
      exact ⟨_, rfl, hdisabled e hafter⟩
    · rename_i enabled next hafter
      have htake : r.decode.takeFire fire = .ok (enabled, next) := by
        rw [Job.takeFire, hpolicy, hafter]
      refine ⟨_, rfl, .single hs hr (runIdOfSerial s.runSerial) rfl ?_ ?_ rfl⟩
      · simp only [JobRow.discharged, hdue, JobRow.fired, htake]
      · simp only [JobRow.dueRuns, hdue, JobRow.firedRuns, htake, Job.firedRun, decide_eq_true_eq]
        rfl

/-- **Firing one job and then others.** -/
theorem FiredInto.cons (hid : id ∉ ids) (h : s.FiredInto now [id] x) (h' : x.FiredInto now ids s') :
    s.FiredInto now (id :: ids) s' := by
  obtain ⟨hjobs, ⟨first, hfirst, howned, hof⟩, hserial⟩ := h
  obtain ⟨hjobs', ⟨others, hothers, howned', hof'⟩, hserial'⟩ := h'
  have hstays (r : JobRow) (hr : r ∈ s.jobs) (hne : r.id ≠ id) : r ∈ x.jobs := by
    rw [hjobs]
    exact List.mem_map.2 ⟨r, hr, by simp [hne]⟩
  refine ⟨?_, ⟨first ++ others, by rw [hothers, hfirst, List.append_assoc], ?_, ?_⟩,
    hserial'.trans hserial⟩
  · rw [hjobs', hjobs, List.map_map]
    refine List.map_congr_left fun r _ => ?_
    by_cases hr : r.id = id
    · simp [hr, hid]
    · simp [hr]
  · intro run hrun
    rcases List.mem_append.1 hrun with hrun | hrun
    · exact List.mem_cons.2 (Or.inl (List.mem_singleton.1 (howned run hrun)))
    · exact List.mem_cons_of_mem id (howned' run hrun)
  · intro r hr hmem
    by_cases hrid : r.id = id
    · -- the others add no run of the job that was fired first
      obtain ⟨runId, hrun⟩ := hof r hr (List.mem_singleton.2 hrid)
      have hnone : others.filter (·.jobId == r.id) = [] := by
        refine List.filter_eq_nil_iff.2 fun run hrun heq => hid ?_
        rw [← hrid, ← beq_iff_eq.1 heq]
        exact howned' run hrun
      exact ⟨runId, by rw [List.filter_append, hrun, hnone, List.append_nil]⟩
    · -- the first run is of another job, and does not count as a run of this one
      obtain ⟨runId, hrun⟩ := hof' r (hstays r hr hrid) ((List.mem_cons.1 hmem).resolve_left hrid)
      have hother : ∀ run ∈ first, run.jobId ≠ r.id := fun run hrun heq =>
        hrid (heq.symm.trans (List.mem_singleton.1 (howned run hrun)))
      have hnone : first.filter (·.jobId == r.id) = [] :=
        List.filter_eq_nil_iff.2 fun run hrun heq => hother run hrun (beq_iff_eq.1 heq)
      have hbusy : x.countRunning r.id = s.countRunning r.id := by
        have hzero : first.countP (fun run => run.jobId == r.id && run.hasStatus .running) = 0 :=
          List.countP_eq_zero.2 fun run hrun => by simp [hother run hrun]
        simp only [countRunning, hfirst, List.countP_append, hzero, Nat.add_zero]
      exact ⟨runId, by rw [List.filter_append, hnone, List.nil_append, hrun, hbusy]⟩

/-- **Firing jobs that are due, one after the other.** -/
theorem runStore_fireJobs (hfits : Cron.WindowFits now) (hs : (s.jobs.map (·.id)).Nodup)
    (hids : ids.Nodup)
    (hdue : ∀ id ∈ ids, ∃ r ∈ s.jobs, r.id = id ∧ ∃ fire, r.due? now = some fire) :
    ∃ outcomes, ((fireJobs now ids).runStore s).1 = .ok outcomes ∧
      s.FiredInto now ids ((fireJobs now ids).runStore s).2 := by
  -- firing one job leaves the rows of the others as they are, so that they are still due
  induction ids generalizing s with
  | nil => exact ⟨[], rfl, .refl s now⟩
  | cons id ids ih =>
    obtain ⟨hid, hrest⟩ := List.nodup_cons.1 hids
    obtain ⟨r, hr, rfl, fire, hfire⟩ := hdue id List.mem_cons_self
    obtain ⟨outcome, hok, hfirst⟩ := enqueue_due hs hr hfire hfits
    have hs' : ((s.enqueue r.id now).2.jobs.map (·.id)).Nodup := by
      rw [hfirst.jobs, map_id_map fun y => by split <;> simp]
      exact hs
    have hdue' : ∀ id ∈ ids, ∃ y ∈ (s.enqueue r.id now).2.jobs, y.id = id ∧
        ∃ fire, y.due? now = some fire := by
      intro id hmem
      obtain ⟨y, hy, rfl, hfire⟩ := hdue id (List.mem_cons_of_mem r.id hmem)
      have hne : y.id ≠ r.id := fun heq => hid (heq ▸ hmem)
      refine ⟨y, ?_, rfl, hfire⟩
      rw [hfirst.jobs]
      exact List.mem_map.2 ⟨y, hy, by simp [hne]⟩
    obtain ⟨outcomes, hoks, hothers⟩ := ih hs' hrest hdue'
    have hstep : (fireJobs now (r.id :: ids)).runStore s =
        ((fireJobs now ids).andThen fun outcomes => done (.ok (outcome :: outcomes))).runStore
          (s.enqueue r.id now).2 := by
      rw [fireJobs, runStore_perform]
      simp only [Statement.run, hok]
    rw [hstep, runStore_andThen_ok (Prod.ext hoks rfl)]
    exact ⟨_, rfl, hfirst.cons hid hothers⟩

/-! ### A pass, job by job -/

/-- **What becomes of the tables in a pass**: every row by itself, and each row may add one run. -/
structure PassedInto (s : Store) (now : Int) (s' : Store) : Prop where
  /-- What becomes of a row depends on the row. -/
  jobs : s'.jobs = s.jobs.map (·.passed now)
  /-- Runs are added, for each row the one that it is due. -/
  runs : ∃ added, s'.runs = s.runs ++ added ∧ (∀ run ∈ added, run.jobId ∈ s.jobs.map (·.id)) ∧
    ∀ r ∈ s.jobs, ∃ runId, added.filter (·.jobId == r.id) =
      r.dueRuns (0 < s.countRunning r.id) runId now
  /-- The number of the next job stays. -/
  jobSerial : s'.jobSerial = s.jobSerial

theorem mem_dueJobIds_iff (hs : (s.jobs.map (·.id)).Nodup) (hr : r ∈ s.jobs) :
    r.id ∈ s.dueJobIds now ↔ ∃ fire, r.due? now = some fire := by
  rw [mem_dueJobIds]
  constructor
  · rintro ⟨y, hy, hid, henabled, fire, hle, hnext⟩
    rw [List.inj_on_of_nodup_map hs hy hr hid] at henabled hnext
    exact ⟨fire, JobRow.due?_eq_some.2 ⟨henabled, hnext, hle⟩⟩
  · rintro ⟨fire, hfire⟩
    obtain ⟨henabled, hnext, hle⟩ := JobRow.due?_eq_some.1 hfire
    exact ⟨r, hr, rfl, henabled, fire, hle, hnext⟩

/-- Firing all jobs that are due discharges every row. -/
theorem FiredInto.discharged (hs : (s.jobs.map (·.id)).Nodup)
    (h : s.FiredInto now (s.dueJobIds now) s') :
    s'.jobs = s.jobs.map (·.discharged now) ∧
      ∃ added, s'.runs = s.runs ++ added ∧ (∀ run ∈ added, run.jobId ∈ s.jobs.map (·.id)) ∧
        ∀ r ∈ s.jobs, ∃ runId, added.filter (·.jobId == r.id) =
          r.dueRuns (0 < s.countRunning r.id) runId now := by
  have hidle (r : JobRow) (hr : r ∈ s.jobs) (hnot : r.id ∉ s.dueJobIds now) :
      r.due? now = none :=
    Option.eq_none_iff_forall_ne_some.2 fun fire hfire =>
      hnot ((mem_dueJobIds_iff hs hr).2 ⟨fire, hfire⟩)
  obtain ⟨hjobs, ⟨added, hruns, howned, hof⟩, -⟩ := h
  refine ⟨?_, added, hruns, ?_, ?_⟩
  · rw [hjobs]
    refine List.map_congr_left fun r hr => ?_
    split
    · rfl
    · rename_i hnot
      rw [JobRow.discharged, hidle r hr hnot]
  · intro run hrun
    obtain ⟨r, hr, hid, -⟩ := mem_dueJobIds.1 (howned run hrun)
    rw [← hid]
    exact List.mem_map_of_mem hr
  · intro r hr
    by_cases hdue : r.id ∈ s.dueJobIds now
    · exact hof r hr hdue
    · refine ⟨"", ?_⟩
      rw [JobRow.dueRuns, hidle r hr hdue, List.filter_eq_nil_iff]
      intro run hrun heq
      rw [← beq_iff_eq.1 heq] at hdue
      exact hdue (howned run hrun)

/-- **A pass, job by job.** -/
theorem passedInto_tick (hs : (s.jobs.map (·.id)).Nodup) (hfits : Cron.WindowFits now) :
    ∃ outcomes s', (tick now).runStore s = (.ok outcomes, s') ∧ s.PassedInto now s' := by
  let x : Store := { s with jobs := s.jobs.map (·.refilled now) }
  have hids : x.jobs.map (·.id) = s.jobs.map (·.id) := map_id_map (fun _ => JobRow.refilled_id) _
  have hx : (x.jobs.map (·.id)).Nodup := hids ▸ hs
  have hdue : ∀ id ∈ x.dueJobIds now, ∃ r ∈ x.jobs, r.id = id ∧ ∃ fire, r.due? now = some fire := by
    intro id hid
    obtain ⟨r, hr, hrid, henabled, fire, hle, hnext⟩ := mem_dueJobIds.1 hid
    exact ⟨r, hr, hrid, fire, JobRow.due?_eq_some.2 ⟨henabled, hnext, hle⟩⟩
  obtain ⟨outcomes, hok, hfired⟩ := runStore_fireJobs hfits hx (dueJobIds_nodup hx) hdue
  have htick : (tick now).runStore s = (fireJobs now (x.dueJobIds now)).runStore x := by
    rw [runStore_tick, runStore_andThen_ok (runStore_fillNextRuns hs hfits), runStore_fireDue]
  obtain ⟨hjobs, added, hruns, howned, hof⟩ := hfired.discharged hx
  refine ⟨outcomes, _, htick.trans (Prod.ext hok rfl), ?_, ⟨added, hruns, hids ▸ howned, ?_⟩,
    hfired.jobSerial⟩
  · rw [hjobs, List.map_map]
    rfl
  · intro r hr
    obtain ⟨runId, hrun⟩ := hof _ (List.mem_map_of_mem hr)
    rw [JobRow.refilled_id, JobRow.dueRuns_refilled] at hrun
    exact ⟨runId, hrun⟩

theorem filter_id (hs : (s.jobs.map (·.id)).Nodup) (hr : r ∈ s.jobs) :
    s.jobs.filter (·.id == r.id) = [r] := by
  have hnodup : s.jobs.Nodup := List.Nodup.of_map _ hs
  refine List.perm_singleton.1 ((List.perm_ext_iff_of_nodup (hnodup.filter _)
    (List.nodup_singleton r)).2 fun y => ?_)
  rw [List.mem_filter, List.mem_singleton, beq_iff_eq]
  constructor
  · rintro ⟨hy, hid⟩
    exact List.inj_on_of_nodup_map hs hy hr hid
  · rintro rfl
    exact ⟨hr, rfl⟩

namespace PassedInto

theorem map_id (h : s.PassedInto now s') : s'.jobs.map (·.id) = s.jobs.map (·.id) := by
  rw [h.jobs, map_id_map fun _ => JobRow.passed_id]

/-- A pass keeps the jobs numbered. -/
theorem numbered (h : s.PassedInto now s') (hs : s.JobsNumbered) : s'.JobsNumbered :=
  hs.of_sublist (by rw [h.map_id]) h.jobSerial

theorem row (h : s.PassedInto now s') (hs : (s.jobs.map (·.id)).Nodup) (hr : r ∈ s.jobs) :
    s'.jobs.filter (·.id == r.id) = [r.passed now] := by
  rw [h.jobs, List.filter_map]
  simp only [Function.comp_def, JobRow.passed_id, filter_id hs hr, List.map_cons, List.map_nil]

theorem runs_of (h : s.PassedInto now s') (hr : r ∈ s.jobs) :
    ∃ runId, s'.runs.filter (·.jobId == r.id) =
      s.runs.filter (·.jobId == r.id) ++ r.dueRuns (0 < s.countRunning r.id) runId now := by
  obtain ⟨added, hruns, -, hof⟩ := h.runs
  obtain ⟨runId, hrun⟩ := hof r hr
  exact ⟨runId, by rw [hruns, List.filter_append, hrun]⟩

/-- No run is changed or removed, and at most one is added for a job. -/
theorem exists_added (h : s.PassedInto now s') :
    ∃ added, s'.runs = s.runs ++ added ∧
      ∀ jobId, (added.filter (·.jobId == jobId)).length ≤ 1 := by
  obtain ⟨added, hruns, howned, hof⟩ := h.runs
  refine ⟨added, hruns, fun jobId => ?_⟩
  by_cases hthere : jobId ∈ s.jobs.map (·.id)
  · obtain ⟨r, hr, rfl⟩ := List.mem_map.1 hthere
    obtain ⟨runId, hrun⟩ := hof r hr
    rw [hrun]
    exact JobRow.length_dueRuns_le
  · have hnone : added.filter (·.jobId == jobId) = [] :=
      List.filter_eq_nil_iff.2 fun run hrun heq => hthere (beq_iff_eq.1 heq ▸ howned run hrun)
    rw [hnone]
    exact Nat.zero_le 1

end PassedInto

/-- **Jobs do not influence one another in a pass.**  In representable time a pass ends without
error, and the row and the runs of a job are afterwards what they are after a pass over a store with
that job and its runs alone, but for the identifier of an added run.  No run is changed or removed,
at most one is added for a job, the same jobs are there, and one that is disabled, or whose next
fire lies ahead, is left as it was and adds no run. -/
theorem tick_alone (hs : (s.jobs.map (·.id)).Nodup) (hfits : Cron.WindowFits now) :
    ∃ outcomes s', (tick now).runStore s = (.ok outcomes, s') ∧
      (∀ r ∈ s.jobs, ∀ alone : Store, alone.jobs = [r] →
        alone.runs = s.runs.filter (·.jobId == r.id) →
        ∃ outcomes' alone', (tick now).runStore alone = (.ok outcomes', alone') ∧
          s'.jobs.filter (·.id == r.id) = alone'.jobs ∧
          ∃ added runId, s'.runs.filter (·.jobId == r.id) = alone.runs ++ added ∧
            alone'.runs = alone.runs ++ added.map ({ · with id := runId })) ∧
      (∃ added, s'.runs = s.runs ++ added ∧
        ∀ jobId, (added.filter (·.jobId == jobId)).length ≤ 1) ∧
      s'.jobs.map (·.id) = s.jobs.map (·.id) ∧
      ∀ r ∈ s.jobs, (r.enabled ≠ 1 ∨ ∃ fire, r.nextRunAt = some fire ∧ now < fire) →
        r ∈ s'.jobs ∧ s'.runs.filter (·.jobId == r.id) = s.runs.filter (·.jobId == r.id) := by
  obtain ⟨outcomes, s', htick, hpassed⟩ := passedInto_tick hs hfits
  refine ⟨outcomes, s', htick, ?_, hpassed.exists_added, hpassed.map_id, ?_⟩
  · intro r hr alone hjobs hruns
    have hmem : r ∈ alone.jobs := by simp [hjobs]
    have hs' : (alone.jobs.map (·.id)).Nodup := by simp [hjobs]
    obtain ⟨outcomes', alone', htick', hpassed'⟩ := passedInto_tick hs' hfits
    -- both passes see the same row, and count the same runs of the job
    have hbusy : alone.countRunning r.id = s.countRunning r.id := by
      simp only [countRunning, hruns, List.countP_filter]
      refine List.countP_congr fun run _ => ?_
      cases run.jobId == r.id <;> simp
    have hself : alone.runs.filter (·.jobId == r.id) = alone.runs := by
      rw [hruns, List.filter_filter]
      simp
    have hall : alone'.runs.filter (·.jobId == r.id) = alone'.runs := by
      obtain ⟨added, hadded, howned, -⟩ := hpassed'.runs
      have hnone : added.filter (·.jobId == r.id) = added :=
        List.filter_eq_self.2 fun run hrun => by simpa [hjobs] using howned run hrun
      rw [hadded, List.filter_append, hself, hnone]
    obtain ⟨runId, hof⟩ := hpassed.runs_of hr
    obtain ⟨runId', hof'⟩ := hpassed'.runs_of hmem
    refine ⟨outcomes', alone', htick', ?_, _, runId', by rw [hof, hruns], ?_⟩
    · rw [hpassed.row hs hr, hpassed'.jobs, hjobs]
      rfl
    · rw [← hall, hof', hself, hbusy, JobRow.dueRuns_rename runId]
  · intro r hr hidle
    obtain ⟨hdue, hstays⟩ := JobRow.passed_of_idle hidle
    obtain ⟨runId, hof⟩ := hpassed.runs_of hr
    refine ⟨?_, by rw [hof, JobRow.dueRuns, hdue, List.append_nil]⟩
    rw [hpassed.jobs]
    exact List.mem_map.2 ⟨r, hr, hstays⟩

/-- Three jobs that are due: one with an unknown policy, an hourly one with a run that is still
going, and one that is to fire only once. -/
def crowded : Store where
  jobs :=
    [{ JobRow.ofSpec "job:0" (.interval "broken" "true" 60) 0 with
        overlapPolicy := "queue", nextRunAt := some 60 },
      { JobRow.ofSpec "job:1" (.interval "hourly" "true" 3600) 0 with nextRunAt := some 3600 },
      { JobRow.ofSpec "job:2" (.interval "once" "true" 60) 0 with
        runOnce := 1, nextRunAt := some 60 }]
  runs :=
    [{ RunRow.ofRun ((JobRow.ofSpec "job:1" (.interval "hourly" "true" 3600) 0).decode.queuedRun
      "run:0" 0 0) with status := "running", startedAt := some 0 }]
  jobSerial := 3
  runSerial := 1

/-- The hourly job among the others, and by itself. -/
theorem tick_alone_crowded :
    (crowded.jobs.map (·.id)).Nodup ∧ Cron.WindowFits 3600 ∧
      ∃ outcomes s', (tick 3600).runStore crowded = (.ok outcomes, s') ∧
        ∀ r ∈ crowded.jobs, ∀ alone : Store, alone.jobs = [r] →
          alone.runs = crowded.runs.filter (·.jobId == r.id) →
          ∃ outcomes' alone', (tick 3600).runStore alone = (.ok outcomes', alone') ∧
            s'.jobs.filter (·.id == r.id) = alone'.jobs ∧
            ∃ added runId, s'.runs.filter (·.jobId == r.id) = alone.runs ++ added ∧
              alone'.runs = alone.runs ++ added.map ({ · with id := runId }) := by
  have hs : (crowded.jobs.map (·.id)).Nodup := by decide
  have hfits : Cron.WindowFits 3600 := by decide
  obtain ⟨outcomes, s', htick, halone, -⟩ := tick_alone hs hfits
  exact ⟨hs, hfits, outcomes, s', htick, halone⟩

end Store

end Timetable
