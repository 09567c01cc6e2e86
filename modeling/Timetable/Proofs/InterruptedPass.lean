/-
**A pass that is interrupted.**

A pass reads the jobs, writes next fires, reads which jobs are due and fires them.  This module says
what the pass comes to when a job is changed under it so that its next fire is forgotten: as if the
change had come after the pass, unless the job was due and the pass had not fired it yet, and then
as if the job had been disabled before the pass.  One thing has to be ruled out: that the pass
writes the next fire of the changed job, or disables it, on the strength of what it had read before.

Main definitions:

* `Statement.Reschedules` — a statement sets the next fire of a job, or disables it;
* `Store.Clears` — a change that is about one job and forgets its next fire;
* `Scheduler.fireDue` — the second half of a pass;
* `Store.DueAt` — a job is due.

Main results:

* `filter_mergeSort` — the order of the due jobs does not depend on which jobs are left out;
* `Store.Clears.fireDue` — a job whose next fire is forgotten is passed over, and that is all;
* `Store.Clears.tick_interrupted` — **what an interrupted pass comes to**;
* `Store.Touches.reconcile_interrupted` — the same of a reconciliation.
-/

import Timetable.Proofs.Overtaking
import Timetable.Proofs.Store.Ledger

set_option autoImplicit false
set_option relaxedAutoImplicit false

namespace Timetable

/-! ### Leaving out before and after sorting -/

section Sorting

variable {α : Type} {le : α → α → Bool}

/-- What comes before an element in order, and what does not, tells where a list was split. -/
theorem filter_split {a : α} {l₁ l₂ : List α} (h₁ : ∀ b ∈ l₁, (!le a b) = true)
    (h₂ : ∀ b ∈ l₂, le a b = true) :
    (l₁ ++ l₂).filter (fun b => !le a b) = l₁ ∧ (l₁ ++ l₂).filter (le a) = l₂ := by
  have h₁' : ∀ b ∈ l₁, ¬ le a b = true := fun b hb => by simpa using h₁ b hb
  have h₂' : ∀ b ∈ l₂, ¬ (!le a b) = true := fun b hb => by simp [h₂ b hb]
  rw [List.filter_append, List.filter_append, List.filter_eq_self.2 h₁,
    List.filter_eq_nil_iff.2 h₂', List.filter_eq_nil_iff.2 h₁', List.filter_eq_self.2 h₂]
  exact ⟨List.append_nil _, List.nil_append _⟩

/-- The first element comes into the sorted rest at a place that the order alone determines. -/
theorem exists_mergeSort_cons
    (trans : ∀ a b c : α, le a b = true → le b c = true → le a c = true)
    (total : ∀ a b : α, (le a b || le b a) = true) (a : α) (l : List α) :
    ∃ l₁ l₂, (a :: l).mergeSort le = l₁ ++ a :: l₂ ∧ l.mergeSort le = l₁ ++ l₂ ∧
      (∀ b ∈ l₁, (!le a b) = true) ∧ ∀ b ∈ l₂, le a b = true := by
  obtain ⟨l₁, l₂, hal, hl, h₁⟩ := List.mergeSort_cons trans total a l
  have hsorted := List.pairwise_mergeSort trans total (a :: l)
  rw [hal] at hsorted
  exact ⟨l₁, l₂, hal, hl, h₁, (List.pairwise_cons.1 (List.pairwise_append.1 hsorted).2.1).1⟩

/-- **What is left out of a sorted list may be left out before**: sorting keeps what is equal in
order as it was. -/
theorem filter_mergeSort (trans : ∀ a b c : α, le a b = true → le b c = true → le a c = true)
    (total : ∀ a b : α, (le a b || le b a) = true) (p : α → Bool) (l : List α) :
    (l.mergeSort le).filter p = (l.filter p).mergeSort le := by
  induction l with
  | nil => simp
  | cons a l ih =>
    obtain ⟨l₁, l₂, hal, hl, h₁, h₂⟩ := exists_mergeSort_cons trans total a l
    cases hp : p a with
    | false =>
      rw [List.filter_cons_of_neg (by simp [hp]), ← ih, hal, hl]
      simp [hp]
    | true =>
      obtain ⟨m₁, m₂, ham, hm, hm₁, hm₂⟩ := exists_mergeSort_cons trans total a (l.filter p)
      have hsame : l₁.filter p ++ l₂.filter p = m₁ ++ m₂ := by
        rw [← List.filter_append, ← hl, ih, hm]
      have hbefore : ∀ b ∈ l₁.filter p, (!le a b) = true :=
        fun b hb => h₁ b (List.mem_of_mem_filter hb)
      have hafter : ∀ b ∈ l₂.filter p, le a b = true :=
        fun b hb => h₂ b (List.mem_of_mem_filter hb)
      have hl₁₂ := filter_split hbefore hafter
      have hm₁₂ := filter_split hm₁ hm₂
      rw [hsame] at hl₁₂
      rw [List.filter_cons_of_pos hp, ham, hal, List.filter_append, List.filter_cons_of_pos hp,
        ← hm₁₂.1, hl₁₂.1, ← hm₁₂.2, hl₁₂.2]

end Sorting

/-! ### Statements of a pass -/

namespace Statement

variable {α : Type} {jobId : String} {now : Int} {s : Store}

/-- The job whose next fire a statement sets, or that it disables as one that cannot be
scheduled. -/
def rescheduled? {α : Type} : Statement α → Option String
  | setNextRun id _ _ | disableInvalid id _ => some id
  | _ => none

/-- A statement sets the next fire of a job, or disables it as one that cannot be scheduled. -/
def Reschedules {α : Type} (jobId : String) (st : Statement α) : Prop :=
  st.rescheduled? = some jobId

/-- A statement gives a job a next fire after a time, or disables it. -/
def Fills {α : Type} (now : Int) : Statement α → Prop
  | setNextRun _ next _ => ∀ fire, next = some fire → now < fire
  | disableInvalid _ _ => True
  | _ => False

/-- Next fires are computed from the time of the pass, and lie after it. -/
theorem fills_setNextRun {j : Job} {next : Int} (h : j.nextFire now = .ok next) :
    (setNextRun j.id (some next) now).Fills now := by
  intro fire hfire
  cases hfire
  exact Job.lt_nextFire h

theorem Fills.sparesJob {st : Statement α} (h : st.Fills now) (hst : ¬ st.Reschedules jobId) :
    st.SparesJob jobId := by
  cases st with
  | setNextRun id next now => exact fun heq => hst (congrArg some heq)
  | disableInvalid id now => exact fun heq => hst (congrArg some heq)
  | _ => exact h.elim

/-- What spares a job leaves its rows alone. -/
theorem SparesJob.mem_jobs {st : Statement α} (h : st.SparesJob jobId) {r : JobRow}
    (hr : r.id = jobId) : r ∈ (st.run s).2.jobs ↔ r ∈ s.jobs := by
  subst hr
  have hupdate (s : Store) {id : String} {f : JobRow → JobRow} (hid : id ≠ r.id)
      (hf : ∀ r, (f r).id = r.id) : r ∈ (s.updateJob id f).jobs ↔ r ∈ s.jobs := by
    constructor
    · intro hmem
      rcases Store.mem_updateJob hmem with ⟨r', -, hid', rfl⟩ | ⟨hmem, -⟩
      · exact absurd (hid'.symm.trans (hf r').symm) hid
      · exact hmem
    · intro hmem
      exact List.mem_map.2 ⟨r, hmem, if_neg (by simpa using Ne.symm hid)⟩
  cases st with
  | setNextRun id next now => exact hupdate s h fun _ => rfl
  | disableInvalid id now => exact hupdate s h fun _ => rfl
  | enqueue id now =>
    obtain ⟨hsame, -⟩ | ⟨e, hdisabled⟩ | ⟨r', fire, enabled, next, busy, -, -, -, -, -, hfired⟩ :=
      s.enqueue_cases id now
    · exact iff_of_eq (congrArg (r ∈ Store.jobs ·) hsame)
    · simp only [run, hdisabled]
      exact hupdate s h fun _ => rfl
    · simp only [run, hfired]
      exact hupdate _ h fun _ => rfl
  | _ => exact h.elim

end Statement

/-- What the scheduler does when it passes over the jobs. -/
def Statement.OfPass {α : Type} : Statement α → Prop
  | .enabledJobs | .jobsWithoutNextRun | .dueJobIds _ | .setNextRun _ _ _ | .disableInvalid _ _
  | .enqueue _ _ => True
  | _ => False

namespace Store

/-- **The same jobs are there**, in the same order, and no new one has been numbered. -/
structure SameJobs (s x : Store) : Prop where
  /-- Identifiers and names are as before. -/
  columns : x.jobs.map (fun r => (r.id, r.name)) = s.jobs.map fun r => (r.id, r.name)
  /-- The number of the next job is as before. -/
  jobSerial : x.jobSerial = s.jobSerial

variable {s x y : Store}

theorem SameJobs.refl (s : Store) : s.SameJobs s := ⟨rfl, rfl⟩

theorem SameJobs.trans (h : s.SameJobs x) (h' : x.SameJobs y) : s.SameJobs y :=
  ⟨h'.columns.trans h.columns, h'.jobSerial.trans h.jobSerial⟩

theorem SameJobs.ids (h : s.SameJobs x) : x.jobs.map (·.id) = s.jobs.map (·.id) := by
  have hids := congrArg (List.map Prod.fst) h.columns
  rwa [List.map_map, List.map_map] at hids

theorem sameJobs_updateJob (s : Store) (id : String) {f : JobRow → JobRow}
    (hid : ∀ r, (f r).id = r.id) (hname : ∀ r, (f r).name = r.name) :
    s.SameJobs (s.updateJob id f) where
  columns := map_column_update s.jobs (·.id == id) (fun r => (r.id, r.name)) fun r =>
    Prod.ext (hid r) (hname r)
  jobSerial := rfl

end Store

namespace Statement.OfPass

variable {α : Type}

/-- A pass leaves the same jobs there. -/
theorem sameJobs {st : Statement α} (h : st.OfPass) (s : Store) : s.SameJobs (st.run s).2 := by
  have hdisable (id : String) (now : Int) : s.SameJobs (s.disableInvalid id now) :=
    s.sameJobs_updateJob id (fun _ => rfl) fun _ => rfl
  have hrecord (run : Run) (id : String) (enabled : Bool) (fire : Int) (next : Option Int)
      (now : Int) : (s.addFire run).SameJobs
        ((s.addFire run).recordFire id enabled fire next now) :=
    (s.addFire run).sameJobs_updateJob id (fun _ => rfl) fun _ => rfl
  cases st with
  | setNextRun id next now => exact s.sameJobs_updateJob id (fun _ => rfl) fun _ => rfl
  | disableInvalid id now => exact hdisable id now
  | enqueue id now =>
    obtain ⟨hsame, -⟩ | ⟨e, hdisabled⟩ | ⟨r, fire, enabled, next, busy, -, -, -, -, -, hfired⟩ :=
      s.enqueue_cases id now
    · exact hsame.symm ▸ Store.SameJobs.refl s
    · simp only [run, hdisabled]
      exact hdisable id now
    · simp only [run, hfired]
      exact ⟨(hrecord _ id enabled fire next now).columns, rfl⟩
  | enabledJobs => exact .refl s
  | jobsWithoutNextRun => exact .refl s
  | dueJobIds now => exact .refl s
  | _ => exact h.elim

end Statement.OfPass

namespace Store.SameJobs

variable {α : Type} {s x z : Store} {p q : Program α} {way : List Access}

/-- What passes over the jobs leaves the same jobs there. -/
theorem runStore (h : s.SameJobs z) (hp : p.Only fun _ st => st.OfPass) :
    s.SameJobs (p.runStore z).2 :=
  hp.keeps (fun _ _ x hst hx => hx.trans (hst.sameJobs x)) h

/-- The same jobs are there on the way. -/
theorem steps (h : s.SameJobs z) (hp : p.Only fun _ st => st.OfPass)
    (hsteps : Program.Steps p z way q x) : s.SameJobs x :=
  hsteps.keeps hp (fun _ _ x hst hx => hx.trans (hst.sameJobs x)) h

end Store.SameJobs

namespace Scheduler

theorem only_ofPass_tick (now : Int) : (tick now).Only fun _ st => st.OfPass :=
  only_tick trivial (fun _ _ _ => trivial) (fun _ => trivial) trivial fun _ => trivial

theorem only_ofPass_reconcile (now : Int) : (reconcile now).Only fun _ st => st.OfPass :=
  only_reconcile trivial (fun _ _ _ => trivial) fun _ => trivial

end Scheduler

theorem Statement.Fills.ofPass {α : Type} {now : Int} {st : Statement α} (h : st.Fills now) :
    st.OfPass := by
  cases st with
  | setNextRun id next now' => trivial
  | disableInvalid id now' => trivial
  | _ => exact h.elim

namespace Store

open Program Scheduler

variable {jobId : String} {f e : Store → Store} {s : Store} {now t : Int}

/-! ### Jobs that are due -/

/-- **A job is due.** -/
def DueAt (s : Store) (jobId : String) (now : Int) : Prop :=
  ∃ r ∈ s.jobs, r.id = jobId ∧ r.enabled = 1 ∧ ∃ fire ≤ now, r.nextRunAt = some fire

theorem mem_dueJobIds : jobId ∈ s.dueJobIds now ↔ s.DueAt jobId now := by
  simp only [dueJobIds, dueRows, DueAt, List.mem_map, List.mem_mergeSort, List.mem_filter,
    Bool.and_eq_true, beq_iff_eq, Option.any_eq_true, decide_eq_true_eq]
  constructor
  · rintro ⟨r, ⟨hr, henabled, fire, hfire, hle⟩, hid⟩
    exact ⟨r, hr, hid, henabled, fire, hle, hfire⟩
  · rintro ⟨r, hr, hid, henabled, fire, hle, hfire⟩
    exact ⟨r, ⟨hr, henabled, fire, hfire, hle⟩, hid⟩

/-- Every job is due once at most. -/
theorem dueJobIds_nodup (hs : (s.jobs.map (·.id)).Nodup) : (s.dueJobIds now).Nodup := by
  have hperm := ((s.dueRows now).mergeSort_perm
    fun a b => decide (a.nextRunAt.getD 0 ≤ b.nextRunAt.getD 0)).map (·.id)
  exact hperm.nodup_iff.2 ((List.filter_sublist.map _).nodup hs)

/-- **Next fires lie ahead when they are written**: what is due afterwards was due before, and
nothing was written about it. -/
theorem dueAt_of_fills {α : Type} {st : Statement α} (hst : st.Fills now)
    (h : (st.run s).2.DueAt jobId now) : s.DueAt jobId now ∧ ¬ st.Reschedules jobId := by
  obtain ⟨r', hr', rfl, henabled, fire, hle, hfire⟩ := h
  cases st with
  | setNextRun id next now' =>
    rcases mem_updateJob hr' with ⟨r, -, -, rfl⟩ | ⟨hr, hid⟩
    · exact absurd (hst fire hfire) (Int.not_lt.2 hle)
    · exact ⟨⟨r', hr, rfl, henabled, fire, hle, hfire⟩, fun h => hid (Option.some.inj h).symm⟩
  | disableInvalid id now' =>
    rcases mem_updateJob hr' with ⟨r, -, -, rfl⟩ | ⟨hr, hid⟩
    · exact absurd henabled Int.zero_ne_one
    · exact ⟨⟨r', hr, rfl, henabled, fire, hle, hfire⟩, fun h => hid (Option.some.inj h).symm⟩
  | _ => exact hst.elim

/-- After next fires have been computed, a job is due only if it was due before and has not been
looked at. -/
theorem dueAt_of_fillNextRuns {jobs : List Job}
    (hok : ((fillNextRuns now jobs).runStore s).1 = .ok ())
    (h : ((fillNextRuns now jobs).runStore s).2.DueAt jobId now) :
    s.DueAt jobId now ∧ ∀ j ∈ jobs, j.id ≠ jobId := by
  induction jobs generalizing s with
  | nil => exact ⟨h, fun _ hj => nomatch hj⟩
  | cons j rest ih =>
    have hstep (st : Statement Unit) (hst : st.Fills now)
        (hres : j.id = jobId → st.Reschedules jobId)
        (hrest : (st.run s).2.DueAt jobId now ∧ ∀ k ∈ rest, k.id ≠ jobId) :
        s.DueAt jobId now ∧ ∀ k ∈ j :: rest, k.id ≠ jobId := by
      obtain ⟨hdue, hnot⟩ := dueAt_of_fills hst hrest.1
      exact ⟨hdue, List.forall_mem_cons.2 ⟨fun hid => hnot (hres hid), hrest.2⟩⟩
    rw [fillNextRuns] at hok h
    cases hnext : j.nextFire now with
    | error failure =>
      cases failure with
      | outOfTime =>
        rw [hnext] at hok
        cases hok
      | definition err =>
        rw [hnext] at hok h
        exact hstep (.disableInvalid j.id now) trivial (congrArg some) (ih hok h)
    | ok next =>
      rw [hnext] at hok h
      exact hstep (.setNextRun j.id (some next) now) (Statement.fills_setNextRun hnext)
        (congrArg some) (ih hok h)

/-! ### Changes that forget the next fire of a job -/

/-- **A change that is about one job and forgets its next fire.** -/
structure Clears (jobId : String) (f : Store → Store) : Prop extends Touches jobId f where
  /-- Afterwards the job has no next fire. -/
  cleared : ∀ s, ∀ r ∈ (f s).jobs, r.id = jobId → r.nextRunAt = none

/-- Disabling a job forgets its next fire. -/
theorem clears_disableJob (jobId : String) (t : Int) : Clears jobId (·.disableJob jobId t) where
  toTouches := touches_updateJob jobId fun _ => rfl
  cleared s r' hr' hid := by
    rcases mem_updateJob hr' with ⟨r, -, -, rfl⟩ | ⟨-, hne⟩
    · rfl
    · exact absurd hid hne

/-- A job that does not fire now is left alone. -/
theorem enqueue_of_not_pending
    (h : ∀ r ∈ s.jobs, r.id = jobId → r.decode.pendingFire? now = none) :
    s.enqueue jobId now = (.ok .notDue, s) := by
  unfold Store.enqueue
  simp only [jobWithId?]
  cases hrow : s.jobRow? jobId with
  | none => rfl
  | some r =>
    obtain ⟨hr, hid⟩ := jobRow?_eq_some hrow
    simp only [Option.map_some, h r hr hid]

/-- What does not select the rows of a job selects among the others. -/
theorem filter_others {rows : List JobRow} {p : JobRow → Bool}
    (hp : ∀ r ∈ rows, r.id = jobId → p r = false) :
    rows.filter p = (rows.filter (·.id != jobId)).filter p := by
  rw [List.filter_filter]
  refine List.filter_congr fun r hr => ?_
  by_cases hid : r.id = jobId
  · rw [hp r hr hid, Bool.false_and]
  · simp [hid]

namespace Clears

theorem enqueue_self (hf : Clears jobId f) (s : Store) (now : Int) :
    (f s).enqueue jobId now = (.ok .notDue, f s) := by
  refine enqueue_of_not_pending fun r hr hid => ?_
  have hnone : r.decode.nextRunAt = none := hf.cleared s r hr hid
  simp [Job.pendingFire?, hnone]

/-- **The jobs that are due are the others**, in the same order. -/
theorem dueJobIds (hf : Clears jobId f) (s : Store) (now : Int) :
    (f s).dueJobIds now = (s.dueJobIds now).filter (· != jobId) := by
  have hrows : (f s).dueRows now = (s.dueRows now).filter (·.id != jobId) := by
    have hidle : ∀ r ∈ (f s).jobs, r.id = jobId →
        (r.enabled == 1 && r.nextRunAt.any (· ≤ now)) = false := fun r hr hid => by
      simp [hf.cleared s r hr hid]
    rw [dueRows, filter_others hidle, hf.others, dueRows, List.filter_comm]
  have htrans (a b c : JobRow) (hab : decide (a.nextRunAt.getD 0 ≤ b.nextRunAt.getD 0) = true)
      (hbc : decide (b.nextRunAt.getD 0 ≤ c.nextRunAt.getD 0) = true) :
      decide (a.nextRunAt.getD 0 ≤ c.nextRunAt.getD 0) = true :=
    decide_eq_true (Int.le_trans (of_decide_eq_true hab) (of_decide_eq_true hbc))
  have htotal (a b : JobRow) : (decide (a.nextRunAt.getD 0 ≤ b.nextRunAt.getD 0) ||
      decide (b.nextRunAt.getD 0 ≤ a.nextRunAt.getD 0)) = true := by
    simpa using Int.le_total (a.nextRunAt.getD 0) (b.nextRunAt.getD 0)
  simp only [Store.dueJobIds, hrows, ← filter_mergeSort htrans htotal, List.filter_map]
  rfl

end Clears

end Store

/-! ### Firing jobs, with one of them passed over -/

theorem filter_ne_of_notMem {ids : List String} {jobId : String} (h : jobId ∉ ids) :
    ids.filter (· != jobId) = ids :=
  List.filter_eq_self.2 fun id hid => by simpa using fun heq : id = jobId => h (heq ▸ hid)

namespace Scheduler

open Program

variable {s x : Store} {now : Int} {jobId id : String} {ids : List String} {way : List Access}
  {q : Failing AccessError (List EnqueueOutcome)}

/-- Jobs are fired one after the other, until a search leaves the representable stretch of time. -/
theorem runStore_fireJobs_cons (now : Int) (id : String) (ids : List String) (s : Store) :
    ((fireJobs now (id :: ids)).runStore s).2 =
      if (s.enqueue id now).1 = .error .outOfTime then (s.enqueue id now).2
      else ((fireJobs now ids).runStore (s.enqueue id now).2).2 := by
  simp only [fireJobs, runStore_perform, Statement.run]
  split
  · rename_i outcome hanswer
    rw [hanswer, if_neg (by simp), andThen, runStore_bind]
    split <;> rfl
  · rename_i hanswer
    rw [hanswer, if_pos rfl]
    rfl
  · rename_i failure hother hanswer
    rw [if_neg (fun h => hother (Except.error.inj (hanswer.symm.trans h)))]

/-- The way of firing jobs one after the other: nothing has been fired yet, or the first job has
been fired, and that was all, or the way goes on with the others. -/
theorem steps_fireJobs_cons (h : Steps (fireJobs now (id :: ids)) s way q x) :
    q = fireJobs now (id :: ids) ∧ x = s ∨
      (s.enqueue id now).1 = .error .outOfTime ∧ x = (s.enqueue id now).2 ∧
        (∀ z, (q.runStore z).2 = z) ∨
      (s.enqueue id now).1 ≠ .error .outOfTime ∧
        ∃ way' q', Steps (fireJobs now ids) (s.enqueue id now).2 way' q' x ∧
          ∀ z, (q.runStore z).2 = (q'.runStore z).2 := by
  cases h with
  | refl => exact Or.inl ⟨rfl, rfl⟩
  | step rest =>
    refine Or.inr ?_
    simp only [Statement.run] at rest
    split at rest
    · rename_i outcome hanswer
      refine Or.inr ⟨by rw [hanswer]; simp, ?_⟩
      have hmap : ((fireJobs now ids).andThen fun outcomes => done (.ok (outcome :: outcomes))) =
          (fireJobs now ids).bind fun a => done (a.map (outcome :: ·)) := by
        rw [andThen]
        congr 1
        funext a
        cases a <;> rfl
      rw [hmap] at rest
      obtain ⟨q', hq', rfl⟩ := Steps.of_map rest
      exact ⟨_, q', hq', fun z => by rw [runStore_bind]; rfl⟩
    · rename_i hanswer
      cases rest
      exact Or.inl ⟨hanswer, rfl, fun _ => rfl⟩
    · rename_i failure hother hanswer
      exact Or.inr ⟨fun h => hother (Except.error.inj (hanswer.symm.trans h)), _, q, rest,
        fun _ => rfl⟩

/-- The second half of a pass: the jobs that are due are fired. -/
def fireDue (now : Int) : Failing AccessError (List EnqueueOutcome) :=
  (attempt (.dueJobIds now)).andThen (fireJobs now)

theorem runStore_fireDue (now : Int) (s : Store) :
    (fireDue now).runStore s = (fireJobs now (s.dueJobIds now)).runStore s := rfl

end Scheduler

namespace Store.Clears

open Program Scheduler

variable {jobId : String} {f e : Store → Store} {s x : Store} {now t : Int} {way : List Access}
  {q : Failing AccessError (List EnqueueOutcome)}

/-- A job that has no next fire is passed over. -/
theorem fireJobs (hf : Clears jobId f) (now : Int) (ids : List String) (s : Store) :
    ((fireJobs now ids).runStore (f s)).2 =
      f ((fireJobs now (ids.filter (· != jobId))).runStore s).2 := by
  induction ids generalizing s with
  | nil => rfl
  | cons id ids ih =>
    by_cases hid : id = jobId
    · subst hid
      rw [runStore_fireJobs_cons, hf.enqueue_self, if_neg (by simp), ih]
      simp
    · rw [List.filter_cons_of_pos (by simpa using hid), runStore_fireJobs_cons,
        runStore_fireJobs_cons, hf.enqueue hid]
      by_cases hstop : (s.enqueue id now).1 = .error .outOfTime
      · rw [if_pos hstop, if_pos hstop]
      · rw [if_neg hstop, if_neg hstop, ih]

/-- **A job whose next fire is forgotten is passed over, and that is all.** -/
theorem fireDue (hf : Clears jobId f) (now : Int) (s : Store) :
    ((fireDue now).runStore (f s)).2 =
      f ((Scheduler.fireJobs now ((s.dueJobIds now).filter (· != jobId))).runStore s).2 := by
  rw [runStore_fireDue, hf.dueJobIds, hf.fireJobs, List.filter_filter]
  simp only [Bool.and_self]

/-- When the next fire of a job is forgotten while jobs are fired, the job was fired before, or is
passed over. -/
theorem fireJobs_interrupted (hf : Clears jobId f) {ids : List String} (hids : ids.Nodup)
    (h : Steps (Scheduler.fireJobs now ids) s way q x) :
    (q.runStore (f x)).2 = f ((Scheduler.fireJobs now ids).runStore s).2 ∨
      jobId ∈ ids ∧ (q.runStore (f x)).2 =
        f ((Scheduler.fireJobs now (ids.filter (· != jobId))).runStore s).2 := by
  induction ids generalizing s way q with
  | nil =>
    cases h
    exact Or.inl rfl
  | cons id ids ih =>
    obtain ⟨hid, hrest⟩ := List.nodup_cons.1 hids
    rcases steps_fireJobs_cons h with ⟨rfl, rfl⟩ | ⟨hstop, rfl, hq⟩ | ⟨hgo, way', q', hq', hq⟩
    · by_cases hmem : jobId ∈ id :: ids
      · exact Or.inr ⟨hmem, hf.fireJobs now _ _⟩
      · exact Or.inl ((hf.fireJobs now _ _).trans (by rw [filter_ne_of_notMem hmem]))
    · rw [runStore_fireJobs_cons, if_pos hstop, hq]
      exact Or.inl rfl
    · rw [runStore_fireJobs_cons, if_neg hgo, hq]
      rcases ih hrest hq' with hall | ⟨hmem, hothers⟩
      · exact Or.inl hall
      · -- a job that has just been fired is not among the remaining ones
        have hne : id ≠ jobId := fun heq => hid (heq ▸ hmem)
        rw [List.filter_cons_of_pos (by simpa using hne), runStore_fireJobs_cons, if_neg hgo]
        exact Or.inr ⟨List.mem_cons_of_mem id hmem, hothers⟩

end Store.Clears

/-! ### The two halves of a pass -/

namespace Program

variable {ε α β : Type} {s y : Store} {p : Failing ε α} {f : α → Failing ε β}

theorem runStore_andThen_ok {a : α} (h : p.runStore s = (.ok a, y)) :
    (p.andThen f).runStore s = (f a).runStore y := by
  rw [andThen, runStore_bind, h]

theorem runStore_andThen_error {e : ε} (h : p.runStore s = (.error e, y)) :
    (p.andThen f).runStore s = (.error e, y) := by
  rw [andThen, runStore_bind, h]
  rfl

end Program

namespace Scheduler

open Program

variable {s x y : Store} {now : Int} {way : List Access}
  {q : Failing AccessError (List EnqueueOutcome)}

/-- A pass reads which jobs have no next fire, computes it, and fires the jobs that are due. -/
theorem tick_eq (now : Int) : tick now = perform .jobsWithoutNextRun fun answer =>
    (done answer).andThen fun jobs => (fillNextRuns now jobs).andThen fun _ => fireDue now := rfl

theorem runStore_tick (now : Int) (s : Store) : (tick now).runStore s =
    ((fillNextRuns now s.jobsWithoutNextRun).andThen fun _ => fireDue now).runStore s := rfl

/-- **The way of a pass that has begun**: it computes next fires, or fires jobs. -/
theorem steps_tick (h : Steps (tick now) s way q x) (hbegun : way ≠ []) :
    (∃ way' p, Steps (fillNextRuns now s.jobsWithoutNextRun) s way' p x ∧
        q = p.andThen fun _ => fireDue now) ∨
      ∃ y way', (fillNextRuns now s.jobsWithoutNextRun).runStore s = (.ok (), y) ∧
        Steps (fireJobs now (y.dueJobIds now)) y way' q x := by
  rw [tick_eq] at h
  cases h with
  | refl => exact absurd rfl hbegun
  | step rest =>
    change Steps ((fillNextRuns now s.jobsWithoutNextRun).andThen fun _ => fireDue now) s _ q x
      at rest
    obtain ⟨last, hlast⟩ := (fillNextRuns now s.jobsWithoutNextRun).exists_steps s
    rcases Steps.of_bind rest with ⟨p, hp, rfl⟩ | ⟨later, hlater⟩
    · exact Or.inl ⟨_, p, hp, rfl⟩
    · -- next fires have been computed, and the second half may have begun
      generalize (fillNextRuns now s.jobsWithoutNextRun).runStore s = filled at hlast hlater ⊢
      obtain ⟨_ | u, y⟩ := filled
      · cases hlater
        exact Or.inl ⟨last, _, hlast, rfl⟩
      · cases hlater with
        | refl => exact Or.inl ⟨last, _, hlast, rfl⟩
        | step hfiring => exact Or.inr ⟨y, _, rfl, hfiring⟩

theorem only_fills_fillNextRuns (now : Int) (jobs : List Job) :
    (fillNextRuns now jobs).Only fun _ st => st.Fills now :=
  only_fillNextRuns (fun _ _ _ h => Statement.fills_setNextRun h) fun _ _ _ _ => trivial

theorem only_fills_reconcileJobs (now : Int) (jobs : List Job) :
    (reconcileJobs now jobs).Only fun _ st => st.Fills now :=
  only_reconcileJobs (fun _ _ _ h => Statement.fills_setNextRun h) fun _ _ _ _ => trivial

/-- A pass does not write about a job that it has not read. -/
theorem only_others_fillNextRuns (now : Int) {jobs : List Job} {jobId : String}
    (hread : ∀ j ∈ jobs, j.id ≠ jobId) :
    (fillNextRuns now jobs).Only fun _ st => ¬ st.Reschedules jobId :=
  only_fillNextRuns (fun j hj _ _ h => hread j hj (Option.some.inj h))
    fun j hj _ _ h => hread j hj (Option.some.inj h)

theorem only_others_reconcileJobs (now : Int) {jobs : List Job} {jobId : String}
    (hread : ∀ j ∈ jobs, j.id ≠ jobId) :
    (reconcileJobs now jobs).Only fun _ st => ¬ st.Reschedules jobId :=
  only_reconcileJobs (fun j hj _ _ h => hread j hj (Option.some.inj h))
    fun j hj _ _ h => hread j hj (Option.some.inj h)

/-- Enqueueing a fire is none of the writes that reschedule: it sets the next fire with the run. -/
theorem only_others_fireJobs (now : Int) (ids : List String) (jobId : String) :
    (fireJobs now ids).Only fun _ st => ¬ st.Reschedules jobId :=
  only_fireJobs fun _ _ => nofun

theorem only_others_fireDue (now : Int) (jobId : String) :
    (fireDue now).Only fun _ st => ¬ st.Reschedules jobId :=
  Only.andThen (Only.attempt nofun) fun ids => only_others_fireJobs now ids jobId

end Scheduler

/-! ### What an interrupted pass comes to -/

namespace Store

open Program Scheduler

variable {jobId : String} {e : Store → Store} {s x y : Store} {now t : Int} {way : List Access}

/-- What only fills in next fires goes on beside a change of a job, if what it writes about that job
goes together with the change. -/
theorem Touches.runStore_fills {α : Type} {p : Program α} (he : Touches jobId e)
    (hp : p.Only fun _ st => st.Fills now)
    (halong : p.Along (fun _ st => st.Reschedules jobId → st.Commutes e) (e x)) :
    p.runStore (e x) = ((p.runStore x).1, e (p.runStore x).2) := by
  refine Program.Along.runStore (halong.and hp fun _ st hfills hself => ?_)
  by_cases hst : st.Reschedules jobId
  · exact hself hst
  · exact he.commutes (hfills.sparesJob hst)

/-- **What an interrupted reconciliation comes to**: as if the change had come after it. -/
theorem Touches.reconcile_interrupted (he : Touches jobId e) {q : Failing AccessError Unit}
    (h : Steps (reconcile now) s way q x) (hbegun : way ≠ [])
    (halong : q.Along (fun _ st => st.Reschedules jobId → st.Commutes e) (e x)) :
    (q.runStore (e x)).2 = e ((reconcile now).runStore s).2 := by
  cases h with
  | refl => exact absurd rfl hbegun
  | step rest =>
    change Steps (reconcileJobs now s.enabledJobs) s _ q x at rest
    rw [he.runStore_fills (rest.only (only_fills_reconcileJobs now _)) halong, rest.runStore_eq]
    rfl

/-- A disabled job is not missing a next fire; that of the others is computed as before. -/
theorem jobsWithoutNextRun_disableJob (h : ∀ j ∈ s.jobsWithoutNextRun, j.id ≠ jobId) (t : Int) :
    (s.disableJob jobId t).jobsWithoutNextRun = s.jobsWithoutNextRun := by
  have hoff : ∀ r ∈ (s.disableJob jobId t).jobs, r.id = jobId →
      (r.enabled == 1 && r.nextRunAt.isNone) = false := by
    intro r' hr' hid
    rcases mem_updateJob hr' with ⟨r, -, -, rfl⟩ | ⟨-, hne⟩
    · rfl
    · exact absurd hid hne
  have hother : ∀ r ∈ s.jobs, r.id = jobId → (r.enabled == 1 && r.nextRunAt.isNone) = false := by
    intro r hr hid
    by_contra hmissing
    exact h r.decode (List.mem_map_of_mem (List.mem_filter.2 ⟨hr, by simpa using hmissing⟩)) hid
  rw [jobsWithoutNextRun, filter_others hoff, (clears_disableJob jobId t).others,
    ← filter_others hother, jobsWithoutNextRun]

/-- **A fire that is withdrawn**: when the job is due after next fires have been computed, a pass
over the others is the pass with that job disabled. -/
theorem tick_withdrawn
    (hfilled : (fillNextRuns now s.jobsWithoutNextRun).runStore s = (.ok (), y))
    (hdue : jobId ∈ y.dueJobIds now) (t : Int) :
    s.DueAt jobId now ∧ ((tick now).runStore (s.disableJob jobId t)).2 =
      ((fireJobs now ((y.dueJobIds now).filter (· != jobId))).runStore y).2.disableJob
        jobId t := by
  have hok : ((fillNextRuns now s.jobsWithoutNextRun).runStore s).1 = .ok () :=
    congrArg Prod.fst hfilled
  have hdue' : ((fillNextRuns now s.jobsWithoutNextRun).runStore s).2.DueAt jobId now := by
    rw [hfilled]
    exact mem_dueJobIds.1 hdue
  obtain ⟨hbefore, hothers⟩ := dueAt_of_fillNextRuns hok hdue'
  have hclears := clears_disableJob jobId t
  have hspares : (fillNextRuns now s.jobsWithoutNextRun).Only fun _ st => st.SparesJob jobId :=
    only_fillNextRuns (fun j hj _ _ => hothers j hj) fun j hj _ _ => hothers j hj
  have hfilled' : (fillNextRuns now (s.disableJob jobId t).jobsWithoutNextRun).runStore
      (s.disableJob jobId t) = (.ok (), y.disableJob jobId t) := by
    rw [jobsWithoutNextRun_disableJob hothers, hclears.runStore (hspares.along _), hfilled]
  exact ⟨hbefore, by rw [runStore_tick, runStore_andThen_ok hfilled', hclears.fireDue]⟩

/-- **What an interrupted pass comes to**: as if the change had come after it; or else the job was
due, and it is as if it had been disabled before. -/
theorem Clears.tick_interrupted (he : Clears jobId e)
    (habsorbs : ∀ z, e (z.disableJob jobId t) = e z) (hs : (s.jobs.map (·.id)).Nodup)
    {q : Failing AccessError (List EnqueueOutcome)} (h : Steps (tick now) s way q x)
    (hbegun : way ≠ [])
    (halong : q.Along (fun _ st => st.Reschedules jobId → st.Commutes e) (e x)) :
    (q.runStore (e x)).2 = e ((tick now).runStore s).2 ∨
      s.DueAt jobId now ∧
        (q.runStore (e x)).2 = e ((tick now).runStore (s.disableJob jobId t)).2 := by
  rcases steps_tick h hbegun with ⟨way', p, hp, rfl⟩ | ⟨y, way', hfilled, hfiring⟩
  · -- the job is changed before the due jobs are read: it is not among them
    have hrest := he.runStore_fills (hp.only (only_fills_fillNextRuns now _)) (along_bind halong)
    rw [hp.runStore_eq] at hrest
    generalize hfilled : (fillNextRuns now s.jobsWithoutNextRun).runStore s = filled at hrest
    obtain ⟨_ | u, y⟩ := filled
    · rw [runStore_andThen_error hrest, runStore_tick, runStore_andThen_error hfilled]
      exact Or.inl rfl
    · rw [runStore_andThen_ok hrest, he.fireDue, runStore_tick, runStore_andThen_ok hfilled,
        runStore_fireDue]
      by_cases hdue : jobId ∈ y.dueJobIds now
      · obtain ⟨hbefore, hwithdrawn⟩ := tick_withdrawn hfilled hdue t
        exact Or.inr ⟨hbefore, by rw [hwithdrawn, habsorbs]⟩
      · rw [filter_ne_of_notMem hdue]
        exact Or.inl rfl
  · -- the job is changed while jobs are fired: its own fire has come already, or is passed over
    have hsame := (SameJobs.refl s).runStore
      ((only_fills_fillNextRuns now s.jobsWithoutNextRun).mono fun _ _ h => h.ofPass)
    rw [hfilled] at hsame
    have hnodup : (y.jobs.map (·.id)).Nodup := hsame.ids.symm ▸ hs
    rw [runStore_tick, runStore_andThen_ok hfilled, runStore_fireDue]
    rcases he.fireJobs_interrupted (dueJobIds_nodup hnodup) hfiring with hall | ⟨hdue, hothers⟩
    · exact Or.inl hall
    · obtain ⟨hbefore, hwithdrawn⟩ := tick_withdrawn hfilled hdue t
      exact Or.inr ⟨hbefore, by rw [hothers, hwithdrawn, habsorbs]⟩

end Store

end Timetable
