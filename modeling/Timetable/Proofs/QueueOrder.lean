/-
**The runs of a job are taken in the order of its fires.**

A worker takes the run at the front of the queue: it looks at the front in one statement and claims
what it saw in another.  In between runs are created, claimed and deleted, and what was at the front
need not be there any more when the claim goes through.  As far as the runs of one job are concerned
this does no harm.  With one scheduling loop a run is created for a later fire than those of its job
before it, and no run comes back to the queue, so that a run that was at the front stays ahead of
everything of its job that waits, whether it is claimed or not.

Only the clock of the loop matters.  A worker whose clock is set back does what some other party,
with a clock of its own, could do in its place, and there may be any number of parties.

Main definitions:

* `RunRow.NoLater` — the order of the queue;
* `Store.Ahead` — a run is ahead of everything of its job that waits;
* `Program.TakesFront` — what a party still has to do claims no run but one that is ahead;
* `InTurn` — one loop, and workers that take runs from the front of the queue.

Main results:

* `Store.frontOfQueue_noLater` — the front of the queue comes first;
* `Access.lt_of_created` — a run is created for a later fire than those before it;
* `Store.Ahead.run` — **a run that is ahead stays ahead**;
* `Store.Identified.exists_run_through` — a run stays as long as its job;
* `Reached.claims_in_order` — **the runs of a job are taken in the order of its fires**.
-/

import Timetable.Proofs.ExclusiveClaims
import Timetable.Proofs.FireOrder
import Timetable.Proofs.Store.Jobs

set_option autoImplicit false
set_option relaxedAutoImplicit false

namespace Timetable

open Program

/-! ### The front of the queue -/

/-- **A run is due no later than another one**: it stands for an earlier fire, or for the same one
and was created no later. -/
def RunRow.NoLater (a b : RunRow) : Prop :=
  a.scheduledFor < b.scheduledFor ∨ a.scheduledFor = b.scheduledFor ∧ a.createdAt ≤ b.createdAt

namespace RunRow.NoLater

variable {a b c : RunRow}

theorem refl (a : RunRow) : a.NoLater a := Or.inr ⟨rfl, Int.le_refl _⟩

theorem trans (hab : a.NoLater b) (hbc : b.NoLater c) : a.NoLater c := by
  unfold NoLater at *
  omega

theorem of_before (h : Store.beforeInQueue a b = true) : a.NoLater b := by
  simp only [Store.beforeInQueue, Bool.or_eq_true, Bool.and_eq_true, decide_eq_true_eq,
    beq_iff_eq] at h
  unfold NoLater
  omega

theorem of_not_before (h : ¬ Store.beforeInQueue b a = true) : a.NoLater b := by
  simp only [Store.beforeInQueue, Bool.or_eq_true, Bool.and_eq_true, decide_eq_true_eq,
    beq_iff_eq] at h
  unfold NoLater
  omega

end RunRow.NoLater

namespace Store

theorem frontOfQueue_eq_none {rows : List RunRow} (h : frontOfQueue rows = none) : rows = [] := by
  cases rows with
  | nil => rfl
  | cons r rest =>
    unfold frontOfQueue at h
    split at h
    · cases h
    · split at h <;> cases h

/-- **The front of the queue comes first.** -/
theorem frontOfQueue_noLater {rows : List RunRow} {front : RunRow}
    (h : frontOfQueue rows = some front) :
    ∀ r ∈ rows, front.NoLater r := by
  induction rows generalizing front with
  | nil => cases h
  | cons first rest ih =>
    unfold frontOfQueue at h
    split at h
    next hnone =>
      cases h
      simp [frontOfQueue_eq_none hnone, RunRow.NoLater.refl]
    next best hbest =>
      have hrest := ih hbest
      split at h
      next hbefore =>
        cases h
        exact List.forall_mem_cons.2 ⟨.of_before hbefore, hrest⟩
      next hbefore =>
        cases h
        refine List.forall_mem_cons.2 ⟨.refl _, ?_⟩
        intro r hr
        exact (RunRow.NoLater.of_not_before hbefore).trans (hrest r hr)

/-- **The front of the queue stands for the earliest fire.** -/
theorem frontOfQueue_le {rows : List RunRow} {front : RunRow} (h : frontOfQueue rows = some front) :
    ∀ r ∈ rows, front.scheduledFor ≤ r.scheduledFor := by
  intro r hr
  have hfirst := frontOfQueue_noLater h r hr
  unfold RunRow.NoLater at hfirst
  omega

end Store

/-! ### Fires of one job -/

/-- **A run is created for a later fire** than those of its job before it. -/
theorem Access.lt_of_created {a : Access} {s : Store} (hid : (a.apply s).Identified)
    (hstep : (a.apply s).InStep) {r r' : RunRow} (hr : r ∈ (a.apply s).runs)
    (hr' : r' ∈ (a.apply s).runs) (hjob : r'.jobId = r.jobId) (hne : r.id ≠ r'.id)
    (hnew : ∀ y ∈ s.runs, y.id ≠ r'.id) : r.scheduledFor < r'.scheduledFor := by
  rcases Access.mem_runs hr' with ⟨y, hy, horigin⟩ | ⟨-, -, -, -, -, -, -, -, -, -, hruns, -⟩
  · exact absurd (congrArg RunRow.Origin.id horigin).symm (hnew y hy)
  · rw [hruns] at hr
    have hbefore : r ∈ s.runs := by
      rcases List.mem_append.1 hr with hold | hlast
      · exact hold
      · exact absurd (congrArg RunRow.id (List.mem_singleton.1 hlast)) hne
    -- the run that was created is the last one on record of its job
    have hfires : (a.apply s).firesOf r.jobId = s.firesOf r.jobId ++ [r'.scheduledFor] := by
      simp [Store.firesOf, hruns, List.filter_append, hjob]
    have hpairwise := hstep.firesOf_pairwise hid r.jobId
    rw [hfires, List.pairwise_append] at hpairwise
    refine hpairwise.2.2 _ (List.mem_map.2 ⟨r, List.mem_filter.2 ⟨hbefore, ?_⟩, rfl⟩) _ (by simp)
    exact beq_self_eq_true _

/-! ### Runs that are ahead -/

namespace Store

/-- **A run is ahead**: of the runs of its job, none that waits stands for an earlier fire. -/
structure Ahead (s : Store) (runId : String) : Prop where
  /-- Its identifier belongs to it. -/
  issued : s.Issued runId
  /-- No run of the job that waits stands for an earlier fire. -/
  le : ∀ r ∈ s.runs, r.id = runId → ∀ r' ∈ s.runs, r'.jobId = r.jobId →
    r'.hasStatus .queued = true → r.scheduledFor ≤ r'.scheduledFor

variable {s : Store} {runId : String}

/-- What a worker sees at the front of the queue is ahead. -/
theorem RunsKeyed.ahead_of_oldestQueued (hs : s.RunsKeyed) {run : Run}
    (h : s.oldestQueued? = .ok (some run)) : s.Ahead run.id := by
  obtain ⟨front, hfront, hread⟩ := exists_front_of_oldestQueued h
  have hmem : front ∈ s.runs := List.mem_of_mem_filter (frontOfQueue_mem hfront)
  refine ⟨(hs.shows_of_oldestQueued h).issued, fun r hr hid r' hr' _ hqueued => ?_⟩
  rw [hs.row_unique hr hmem (hid.trans (RunRow.id_of_decode hread))]
  exact frontOfQueue_le hfront r' (List.mem_filter.2 ⟨hr', hqueued⟩)

/-- **A run that is ahead stays ahead**, whatever statement follows that leaves jobs in step. -/
theorem Ahead.run {α : Type} {st : Statement α} (h : s.Ahead runId) (hid : s.Identified)
    (hends : st.EndsRuns) (hstep : (st.run s).2.InStep) : (st.run s).2.Ahead runId := by
  refine ⟨h.issued.run hends, fun r hr hrid r' hr' hjob hqueued => ?_⟩
  rcases Statement.mem_runs_run hends hr with ⟨y, hy, hchange⟩ | ⟨hnew, -, -⟩
  · rcases Statement.mem_runs_run hends hr' with ⟨y', hy', hchange'⟩ | ⟨hnew, -, -⟩
    · -- what waits now has been waiting, and nothing has happened to it
      obtain rfl := hchange'.eq_of_queued hqueued
      have hyjob : y.jobId = r.jobId := congrArg RunRow.Origin.jobId hchange.origin_eq.symm
      have hyfire : y.scheduledFor = r.scheduledFor :=
        congrArg RunRow.Origin.scheduledFor hchange.origin_eq.symm
      rw [← hyfire]
      exact h.le y hy (hchange.id_eq.symm.trans hrid) r' hy' (hjob.trans hyjob.symm) hqueued
    · have hfresh : ∀ x ∈ s.runs, x.id ≠ r'.id := fun x hx heq =>
        hid.nextRunId_notMem (List.mem_map.2 ⟨x, hx, heq.trans hnew⟩)
      have hne : r.id ≠ r'.id := hchange.id_eq ▸ hfresh y hy
      exact Int.le_of_lt (Access.lt_of_created (a := ⟨α, st⟩) (st.identified_run hid) hstep hr hr'
        hjob hne hfresh)
  · exact absurd (hrid.symm.trans hnew) (h.issued _ (Nat.le_refl _))

/-- A run that is ahead stays ahead through a history. -/
theorem Ahead.stage {history : List Access} (hends : ∀ a ∈ history, a.2.EndsRuns)
    (hstep : ∀ k, (empty.stage history k).InStep) {j k : Nat} (hjk : j ≤ k)
    (h : (empty.stage history j).Ahead runId) : (empty.stage history k).Ahead runId := by
  induction k, hjk using Nat.le_induction with
  | base => exact h
  | succ k _ ih =>
    cases ha : history[k]? with
    | none =>
      -- past the end of the history nothing changes any more
      have hlen : history.length ≤ k := List.getElem?_eq_none_iff.1 ha
      rw [Store.stage, List.take_of_length_le (Nat.le_succ_of_le hlen)]
      rwa [Store.stage, List.take_of_length_le hlen] at ih
    | some a =>
      have hafter := hstep (k + 1)
      rw [stage_succ ha] at hafter ⊢
      exact ih.run (identified_after _) (hends a (List.mem_of_getElem? ha)) hafter

end Store

/-! ### Runs stay with their jobs -/

namespace Store

variable {s : Store} {history : List Access}

theorem jobSerial_le_through (s : Store) (history : List Access) :
    s.jobSerial ≤ (s.through history).jobSerial := by
  induction history generalizing s with
  | nil => exact Nat.le_refl _
  | cons a history ih => exact Nat.le_trans (jobSerial_le_apply a s) (ih _)

/-- A job that was there before and is there after a statement. -/
theorem JobsNumbered.mem_of_mem_apply (hs : s.JobsNumbered) {a : Access} {jobId : String}
    (hissued : ∀ k, s.jobSerial ≤ k → jobId ≠ jobIdOfSerial k)
    (h : jobId ∈ (a.apply s).jobs.map (·.id)) : jobId ∈ s.jobs.map (·.id) := by
  obtain ⟨r', hr', rfl⟩ := List.mem_map.1 h
  rcases Access.mem_jobs hs.ids hr' with ⟨r, hr, hchange⟩ | ⟨spec, now, -, -, rfl⟩
  · exact List.mem_map.2 ⟨r, hr, hchange.id_eq.symm⟩
  · exact absurd rfl (hissued _ (Nat.le_refl _))

/-- A job is not there after the statement that deletes it. -/
theorem notMem_of_deletes {a : Access} {jobId : String} (h : a.2.Deletes jobId) :
    jobId ∉ (a.apply s).jobs.map (·.id) := by
  obtain ⟨α, st⟩ := a
  cases st with
  | deleteJob id =>
    obtain rfl : id = jobId := h
    intro hmem
    obtain ⟨r, hr, hid⟩ := List.mem_map.1 hmem
    have hne : r.id ≠ id := by simpa using (List.mem_filter.1 hr).2
    exact hne hid
  | _ => exact h.elim

/-- **A run stays as long as its job.** -/
theorem Identified.exists_run_through (hs : s.Identified) (hends : ∀ a ∈ history, a.2.EndsRuns)
    {r : RunRow} (hr : r ∈ s.runs) (hjob : r.jobId ∈ (s.through history).jobs.map (·.id)) :
    ∃ r' ∈ (s.through history).runs, r.Course r' := by
  -- identifiers of jobs are not given again, so a job that is there at the end was there all along
  have hissued (k : Nat) (hk : s.jobSerial ≤ k) : r.jobId ≠ jobIdOfSerial k := fun heq =>
    hs.jobsNumbered.fresh k hk (heq ▸ hs.runs_owned _ (List.mem_map_of_mem hr))
  induction history using List.reverseRec with
  | nil => exact ⟨r, hr, .refl⟩
  | append_singleton history a ih =>
    rw [through_concat] at hjob ⊢
    have hbefore : r.jobId ∈ (s.through history).jobs.map (·.id) :=
      (hs.jobsNumbered.through history).mem_of_mem_apply
        (fun k hk => hissued k (Nat.le_trans (jobSerial_le_through s history) hk)) hjob
    obtain ⟨y, hy, hcourse⟩ := ih (fun b hb => hends b (List.mem_append_left _ hb)) hbefore
    rcases Statement.mem_runs_or_deletes (hends a (by simp)) hy with ⟨r', hr', hchange⟩ | hdeletes
    · exact ⟨r', hr', hcourse.tail hchange⟩
    · have hsame : y.jobId = r.jobId := congrArg RunRow.Origin.jobId hcourse.origin_eq
      exact absurd (hsame ▸ hjob) (notMem_of_deletes hdeletes)

end Store

/-! ### What parties still have to do -/

namespace Operation

/-- An operation takes runs from the front of the queue only, and ends runs only in a status that
ends them. -/
def TakesFront : Operation → Prop
  | claim _ _ => False
  | finish _ status _ _ _ => status.isTerminal = true
  | _ => True

theorem TakesFront.endsRuns {o : Operation} (h : o.TakesFront) : o.EndsRuns := by
  cases o with
  | claim runId now => exact h.elim
  | finish runId status error summary now => exact h
  | _ => trivial

end Operation

/-- **What a party still has to do claims no run but one that is ahead**: it leaves the queue alone,
or is about to look at the front of the queue, or to claim a run that it has seen there. -/
inductive Program.FromFront (s : Store) : Program Reply → Prop where
  /-- The queue is left alone. -/
  | leaves (p : Program Reply) (h : p.Only fun _ st => st.LeavesQueue) : FromFront s p
  /-- The front of the queue is about to be looked at. -/
  | looks (now : Int) : FromFront s (Operation.claimNext now).call
  /-- A run that was seen there is about to be claimed. -/
  | seen (run : Run) (now : Int) (h : s.Ahead run.id) : FromFront s (Operation.claimSeen run now)

theorem Operation.TakesFront.fromFront {o : Operation} (h : o.TakesFront) (s : Store) :
    o.call.FromFront s := by
  rcases leavesQueue_or_claims h.endsRuns with ⟨honly, -⟩ | ⟨runId, now, rfl⟩ | ⟨now, rfl⟩
  · exact .leaves _ (only_call honly)
  · exact h.elim
  · exact .looks now

namespace Program.FromFront

variable {s : Store} {p : Program Reply} {β : Type} {st : Statement β}
  {next : Except AccessError β → Program Reply}

/-- What others do keeps a run that was seen ahead. -/
theorem run (h : p.FromFront s) (hid : s.Identified) (hends : st.EndsRuns)
    (hstep : (st.run s).2.InStep) : p.FromFront (st.run s).2 := by
  cases h with
  | leaves p honly => exact .leaves p honly
  | looks now => exact .looks now
  | seen run now hahead => exact .seen run now (hahead.run hid hends hstep)

/-- A run that a worker claims is ahead. -/
theorem ahead_of_claims (h : (perform st next).FromFront s) {runId : String}
    (hclaims : st.Claims runId s) : s.Ahead runId := by
  generalize hp : Program.perform st next = p at h
  cases h with
  | leaves p honly =>
    subst hp
    cases st with
    | claim id now => exact honly.1.elim
    | _ => exact hclaims.elim
  | looks now =>
    rw [Operation.call_claimNext] at hp
    cases hp
    exact hclaims.elim
  | seen run now hahead =>
    cases hp
    obtain ⟨rfl, -⟩ := hclaims
    exact hahead

/-- What is left to do after a statement claims no run but one that is ahead. -/
theorem perform (h : (perform st next).FromFront s) (hs : s.RunsKeyed) :
    (next (st.run s).1).FromFront (st.run s).2 := by
  generalize hp : Program.perform st next = p at h
  cases h with
  | leaves p honly =>
    subst hp
    exact .leaves _ (honly.2 _)
  | looks now =>
    rw [Operation.call_claimNext] at hp
    cases hp
    cases hseen : s.oldestQueued? with
    | error e =>
      simp only [Statement.run, Statement.readRuns, hseen]
      exact .leaves _ trivial
    | ok found =>
      cases found with
      | none =>
        simp only [Statement.run, Statement.readRuns, hseen]
        exact .leaves _ trivial
      | some run =>
        simp only [Statement.run, Statement.readRuns, hseen]
        exact .seen run now (hs.ahead_of_oldestQueued hseen)
  | seen run now hahead =>
    cases hp
    -- there is nothing left to do, whether the claim went through or not
    cases hwon : (s.claim run.id now).1 <;> simp only [Statement.run, hwon] <;>
      exact .leaves _ trivial

end Program.FromFront

/-- What is claimed was waiting. -/
theorem Store.ClaimedAt.waits {s : Store} {history : List Access} {k : Nat} {runId : String}
    (h : s.ClaimedAt history k runId) :
    ∃ r ∈ (s.stage history k).runs, r.id = runId ∧ r.hasStatus .queued = true := by
  obtain ⟨a, -, hclaims⟩ := h
  obtain ⟨-, r, hr, hid, hqueued, -⟩ := hclaims.started
  exact ⟨r, hr, hid, hqueued⟩

/-! ### Every run of the parties -/

/-- **One loop, and workers that take runs from the front of the queue**, beside parties that save,
disable and delete jobs. -/
def InTurn {ι : Type} (loop i : ι) (o : Operation) : Prop := OneLoop loop i o ∧ o.TakesFront

namespace Reached

variable {ι : Type} [DecidableEq ι] {may : ι → Operation → Prop} {loop : ι} {clock : ι → Int}
  {d : Session ι}

/-- Every moment on the way was reached. -/
theorem exists_take (h : Reached may clock d) (k : Nat) :
    ∃ clock' d', Reached may clock' d' ∧ d'.history = d.history.take k := by
  induction h with
  | opening clock => exact ⟨clock, _, .opening clock, List.take_nil.symm⟩
  | take i o before idle permitted later ih =>
    rw [Session.turn_take idle]
    exact ih
  | @act clock d i before ih =>
    cases hi : d.rest i with
    | done reply => rwa [Session.turn_act_done hi]
    | perform st next =>
      have hstep := before.act i
      rw [Session.turn_act hi] at hstep ⊢
      have hhistory : ((d.perform st).goOn i (next (st.run d.store).1)).history =
          d.history ++ [⟨_, st⟩] := rfl
      by_cases hk : k ≤ d.history.length
      · rwa [hhistory, List.take_append_of_le_length hk]
      · refine ⟨clock, _, hstep, (List.take_of_length_le ?_).symm⟩
        rw [hhistory, List.length_append, List.length_singleton]
        omega

theorem endsRuns (h : Reached (InTurn loop) clock d) : ∀ a ∈ d.history, a.2.EndsRuns :=
  (h.bound fun _ _ ho => Operation.only_endsRuns ho.2.endsRuns).performed

theorem inStep_of_inTurn (h : Reached (InTurn loop) clock d) : d.store.InStep :=
  (h.mono fun _ _ ho => ho.1).inStep.1

/-- At every moment jobs were in step with their records. -/
theorem stage_inStep (h : Reached (InTurn loop) clock d) (k : Nat) :
    (Store.empty.stage d.history k).InStep := by
  obtain ⟨clock', d', h', hhistory⟩ := h.exists_take k
  have hstep := h'.inStep_of_inTurn
  rwa [h'.store_eq, hhistory] at hstep

/-- **No party is about to claim a run that is not ahead.** -/
theorem fromFront (h : Reached (InTurn loop) clock d) : ∀ i, (d.rest i).FromFront d.store := by
  induction h with
  | opening clock => exact fun _ => .leaves _ trivial
  | take k o before idle permitted later ih =>
    rw [Session.turn_take idle]
    exact Session.rest_goOn ih (permitted.2.fromFront _)
  | @act clock d k before ih =>
    cases hk : d.rest k with
    | done reply => rwa [Session.turn_act_done hk]
    | perform st next =>
      have hafter := before.act k
      rw [Session.turn_act hk] at hafter ⊢
      have hends : st.EndsRuns := hafter.endsRuns ⟨_, st⟩ (by simp [Session.goOn, Session.perform])
      have hfront := ih k
      rw [hk] at hfront
      exact Session.rest_goOn (d := d.perform st)
        (fun i => (ih i).run before.identified hends hafter.inStep_of_inTurn)
        (hfront.perform before.identified.runsKeyed)

/-- **Whatever is claimed is ahead** when it is claimed. -/
theorem ahead_of_claimedAt (h : Reached (InTurn loop) clock d) {k : Nat} {runId : String}
    (hk : Store.empty.ClaimedAt d.history k runId) :
    (Store.empty.stage d.history k).Ahead runId := by
  obtain ⟨a, ha, hclaims⟩ := hk
  induction h with
  | opening clock => cases ha
  | take i o before idle permitted later ih =>
    rw [Session.turn_take idle] at ha hclaims ⊢
    exact ih ha hclaims
  | @act clock d i before ih =>
    cases hi : d.rest i with
    | done reply =>
      rw [Session.turn_act_done hi] at ha hclaims ⊢
      exact ih ha hclaims
    | perform st next =>
      rw [Session.turn_act hi] at ha hclaims ⊢
      change (d.history ++ [⟨_, st⟩])[k]? = some a at ha
      change a.2.Claims runId (Store.empty.stage (d.history ++ [⟨_, st⟩]) k) at hclaims
      change (Store.empty.stage (d.history ++ [⟨_, st⟩]) k).Ahead runId
      rcases Nat.lt_or_ge k d.history.length with hlt | hge
      · rw [List.getElem?_append_left hlt] at ha
        rw [Store.stage_append (Nat.le_of_lt hlt)] at hclaims ⊢
        exact ih ha hclaims
      · -- the last statement of the history
        obtain rfl : k = d.history.length := by
          have := (List.getElem?_eq_some_iff.1 ha).1
          simp only [List.length_append, List.length_singleton] at this
          omega
        rw [List.getElem?_append_right (Nat.le_refl _), Nat.sub_self] at ha
        cases ha
        have hstore : Store.empty.stage (d.history ++ [⟨_, st⟩]) d.history.length = d.store := by
          rw [Store.stage_append (Nat.le_refl _), Store.stage_length, before.store_eq]
          rfl
        have hfront := before.fromFront i
        rw [hi] at hfront
        rw [hstore] at hclaims ⊢
        exact hfront.ahead_of_claims hclaims

/-- **The runs of a job are taken in the order of its fires.**  One scheduling loop whose times do
not go back, any number of workers that take runs from the front of the queue, and any number of
parties that save, disable and delete jobs, on one database that was empty, take turns at single
statements.  Then a run is never claimed while a run of the same job waits that stands for an
earlier fire; and of two runs of one job, the one that is claimed first stands for the earlier
fire. -/
theorem claims_in_order (h : Reached (InTurn loop) clock d) :
    d.store = Store.empty.through d.history ∧
      (∀ k runId, Store.empty.ClaimedAt d.history k runId →
        ∀ b ∈ (Store.empty.stage d.history k).runs, b.id = runId →
        ∀ a ∈ (Store.empty.stage d.history k).runs, a.jobId = b.jobId →
          a.scheduledFor < b.scheduledFor → a.hasStatus .queued = false) ∧
      ∀ j k runId runId', j < k → Store.empty.ClaimedAt d.history j runId →
        Store.empty.ClaimedAt d.history k runId' →
        ∀ a ∈ (Store.empty.stage d.history j).runs, a.id = runId →
        ∀ b ∈ (Store.empty.stage d.history k).runs, b.id = runId' → b.jobId = a.jobId →
          a.scheduledFor < b.scheduledFor := by
  have hends := h.endsRuns
  have hidentified (k : Nat) : (Store.empty.stage d.history k).Identified :=
    Store.identified_after _
  refine ⟨h.store_eq, fun k runId hk b hb hid a ha hjob hlt => ?_, ?_⟩
  · by_contra hqueued
    rw [Bool.not_eq_false] at hqueued
    have hle := (h.ahead_of_claimedAt hk).le b hb hid a ha hjob hqueued
    omega
  · intro j k runId runId' hjk hj hk a ha hid b hb hid' hjob
    -- the run that was claimed first is still there, and still ahead of what waits
    have hahead : (Store.empty.stage d.history k).Ahead runId :=
      (h.ahead_of_claimedAt hj).stage hends h.stage_inStep (Nat.le_of_lt hjk)
    have hthere : a.jobId ∈ (Store.empty.stage d.history k).jobs.map (·.id) :=
      hjob ▸ (hidentified k).runs_owned _ (List.mem_map_of_mem hb)
    rw [Store.stage_eq_through (Nat.le_of_lt hjk)] at hthere
    obtain ⟨y, hy, hcourse⟩ := (hidentified j).exists_run_through
      (fun x hx => hends x (List.mem_of_mem_take (List.mem_of_mem_drop hx))) ha hthere
    rw [← Store.stage_eq_through (Nat.le_of_lt hjk)] at hy
    have hyjob : y.jobId = a.jobId := congrArg RunRow.Origin.jobId hcourse.origin_eq
    have hyfire : y.scheduledFor = a.scheduledFor :=
      congrArg RunRow.Origin.scheduledFor hcourse.origin_eq
    have hyid : y.id = runId := hcourse.id_eq.trans hid
    obtain ⟨r, hr, hrid, hqueued⟩ := hk.waits
    obtain rfl := (hidentified k).runsKeyed.row_unique hr hb (hrid.trans hid'.symm)
    have hle : y.scheduledFor ≤ r.scheduledFor :=
      hahead.le y hy hyid r hr (hjob.trans hyjob.symm) hqueued
    refine lt_of_le_of_ne (hyfire ▸ hle) fun heq => ?_
    -- with the same fire the two runs would be one, and it would be claimed twice
    have hsame : r = y := ((h.stage_inStep k).firesOnce (hidentified k)).eq_of_scheduledFor_eq hy hr
      (hjob.trans hyjob.symm) (heq.symm.trans hyfire.symm)
    rw [← hid', hsame, hyid] at hk
    exact absurd (Store.identified_empty.runsKeyed.claimedAt_unique hends hj hk) (Nat.ne_of_lt hjk)

/-- An hourly job fires twice.  Two workers look at the first run, one of them before the second run
is created, and one after; the first one claims it, and the other one comes away empty-handed, looks
again and claims the second run, while the job has been disabled. -/
def twoAtQueue : List (Turn (Fin 4)) :=
  [.take 1 (.saveJob (.interval "report" "true" 3600) 0), .act 1, .act 1,
    .take 0 (.tick 0), .act 0, .act 0, .act 0, .take 0 (.tick 3600), .act 0, .act 0, .act 0,
    .take 2 (.claimNext 3600), .act 2, .take 0 (.tick 7200), .act 0, .act 0, .act 0,
    .take 3 (.claimNext 7200), .act 3, .act 2, .act 3, .take 1 (.disableJob "job:0" 7300), .act 1,
    .take 3 (.claimNext 7300), .act 3, .act 3]

/-- The run of the first hour is claimed before that of the second. -/
theorem claims_in_order_of_two :
    ∃ clock, ∃ d : Session (Fin 4), Reached (InTurn 0) clock d ∧
      Store.empty.ClaimedAt d.history 13 "run:0" ∧ Store.empty.ClaimedAt d.history 17 "run:1" ∧
      ((Store.empty.stage d.history 13).runs.map fun r => (r.id, r.status, r.scheduledFor)) =
        [("run:0", "queued", 3600), ("run:1", "queued", 7200)] ∧
      ∀ a ∈ (Store.empty.stage d.history 13).runs, a.id = "run:0" →
        ∀ b ∈ (Store.empty.stage d.history 17).runs, b.id = "run:1" → b.jobId = a.jobId →
          a.scheduledFor < b.scheduledFor := by
  have hmay : MayTake (InTurn 0) (fun _ => 0) (twoAtQueue.filterMap Turn.taken?) := by
    simp only [twoAtQueue, List.filterMap, Turn.taken?]
    simp [MayTake, InTurn, OneLoop, Operation.OfLoop, Operation.OfOthers, Operation.TakesFront,
      Operation.time]
  obtain ⟨clock, h⟩ := of_play hmay
  have hfirst :
      Store.empty.ClaimedAt ((Session.opening .empty).play twoAtQueue).history 13 "run:0" :=
    ⟨⟨Bool, .claim "run:0" 3600⟩, by with_unfolding_all rfl, rfl, by decide +kernel⟩
  have hsecond :
      Store.empty.ClaimedAt ((Session.opening .empty).play twoAtQueue).history 17 "run:1" :=
    ⟨⟨Bool, .claim "run:1" 7300⟩, by with_unfolding_all rfl, rfl, by decide +kernel⟩
  exact ⟨clock, _, h, hfirst, hsecond, by decide +kernel,
    h.claims_in_order.2.2 13 17 "run:0" "run:1" (by decide) hfirst hsecond⟩

end Reached

end Timetable
