/-
**No edit is lost beside a pass.**

A pass over the jobs and the saving of a job may interleave, statement by statement.  The result is
that of one after the other, in one order or the other, but for one case: the job was due when the
pass began, and the pass had yet to fire it when it was saved.  Then the fire is withdrawn, as if
the job had been disabled before the pass, and the job waits for its next fire to be computed from
its new definition.  All this is said of sessions in which the pass does not overrule what was
saved: it may have read the old definition, but what it still writes about the job has to be what
the new one asks for, as it is when the schedule was kept.

Main definitions:

* `Store.JobsKeyed` — jobs are told apart by their identifiers and by their names;
* `Store.edit` — saving a job, on any store where the same jobs are;
* `JobRow.Follows` — a row goes by a specification;
* `Statement.Overrules` — a write of a pass that does not go by a specification;
* `Session.OverwritesEdit` — a pass that had begun before an edit overrules it.

Main results:

* `Store.JobsKeyed.tick_beside_edit`, `Store.JobsKeyed.reconcile_beside_edit` — the edit on the way
  of a pass;
* `Store.JobsKeyed.follows_saved` — the saved job goes by its new definition;
* `Session.edit_serial` — **no edit is lost beside a pass**.
-/

import Timetable.Proofs.SettledWrites

set_option autoImplicit false
set_option relaxedAutoImplicit false

namespace Timetable

open Program Scheduler

/-! ### Saving a job -/

namespace Store

/-- **Jobs are told apart** by their identifiers and by their names, and the next identifier is on
no row. -/
structure JobsKeyed (s : Store) : Prop where
  /-- No two jobs have the same identifier. -/
  ids : (s.jobs.map (·.id)).Nodup
  /-- No two jobs have the same name. -/
  names : (s.jobs.map (·.name)).Nodup
  /-- The next identifier has not been given to a job. -/
  fresh : jobIdOfSerial s.jobSerial ∉ s.jobs.map (·.id)

/-- The identifier of the job that is saved: that of the job with the name, or the next one. -/
def editedId (s : Store) (spec : JobSpec) : String :=
  match s.jobRowNamed? spec.name with
  | some r => r.id
  | none => jobIdOfSerial s.jobSerial

/-- **Saving a job**, on any store where the same jobs are: the row with the identifier is
redefined, or a new row takes its place at the end. -/
def edit (s : Store) (spec : JobSpec) (t : Int) (x : Store) : Store :=
  match s.jobRowNamed? spec.name with
  | some r => x.updateJob r.id (·.redefine spec t)
  | none =>
    { x with
      jobs := x.jobs.filter (·.id != jobIdOfSerial s.jobSerial) ++
        [JobRow.ofSpec (jobIdOfSerial s.jobSerial) spec t]
      jobSerial := s.jobSerial + 1 }

variable {s x z : Store} {spec : JobSpec} {t now : Int}

theorem jobRowNamed?_eq_some {name : String} {r : JobRow} (h : s.jobRowNamed? name = some r) :
    r ∈ s.jobs ∧ r.name = name :=
  ⟨List.mem_of_find?_eq_some h, by simpa using List.find?_some h⟩

theorem jobRowNamed?_eq_none {name : String} (h : s.jobRowNamed? name = none) :
    ∀ r ∈ s.jobs, r.name ≠ name := fun r hr => by
  simpa using List.find?_eq_none.1 h r hr

/-- Saving a job is about that job, and forgets its next fire. -/
theorem clears_edit (s : Store) (spec : JobSpec) (t : Int) :
    Clears (s.editedId spec) (s.edit spec t) := by
  unfold editedId edit
  cases s.jobRowNamed? spec.name with
  | some r =>
    refine ⟨touches_updateJob r.id fun _ => rfl, fun x r' hr' hid => ?_⟩
    rcases mem_updateJob hr' with ⟨r₀, -, -, rfl⟩ | ⟨-, hne⟩
    · rfl
    · exact absurd hid hne
  | none =>
    refine ⟨touches_replace (JobRow.ofSpec (jobIdOfSerial s.jobSerial) spec t) _,
      fun x r' hr' hid => ?_⟩
    rcases List.mem_append.1 hr' with hold | hnew
    · exact absurd hid (by simpa using (List.mem_filter.1 hold).2)
    · rw [List.mem_singleton.1 hnew]
      rfl

/-- Where the same jobs are, every row has the identifier and the name of a row. -/
theorem SameJobs.exists_row (h : s.SameJobs x) {r : JobRow} (hr : r ∈ x.jobs) :
    ∃ r₀ ∈ s.jobs, r₀.id = r.id ∧ r₀.name = r.name := by
  have hmem : (r.id, r.name) ∈ s.jobs.map fun r => (r.id, r.name) :=
    h.columns ▸ List.mem_map_of_mem hr
  obtain ⟨r₀, hr₀, heq⟩ := List.mem_map.1 hmem
  exact ⟨r₀, hr₀, congrArg Prod.fst heq, congrArg Prod.snd heq⟩

theorem SameJobs.symm (h : s.SameJobs x) : x.SameJobs s := ⟨h.columns.symm, h.jobSerial.symm⟩

namespace JobsKeyed

/-- A row with the identifier of the job that is saved has its name. -/
theorem name_eq (hs : s.JobsKeyed) {r : JobRow} (hr : r ∈ s.jobs) (hid : r.id = s.editedId spec) :
    r.name = spec.name := by
  unfold editedId at hid
  cases hnamed : s.jobRowNamed? spec.name with
  | some r' =>
    rw [hnamed] at hid
    obtain ⟨hr', hname⟩ := jobRowNamed?_eq_some hnamed
    rw [List.inj_on_of_nodup_map hs.ids hr hr' hid, hname]
  | none =>
    rw [hnamed] at hid
    change r.id = jobIdOfSerial s.jobSerial at hid
    exact absurd (List.mem_map_of_mem hr) (hid ▸ hs.fresh)

/-- A row with the name of the job that is saved has its identifier. -/
theorem id_eq (hs : s.JobsKeyed) {r : JobRow} (hr : r ∈ s.jobs) (hname : r.name = spec.name) :
    r.id = s.editedId spec := by
  unfold editedId
  cases hnamed : s.jobRowNamed? spec.name with
  | some r' =>
    obtain ⟨hr', hname'⟩ := jobRowNamed?_eq_some hnamed
    rw [List.inj_on_of_nodup_map hs.names hr hr' (hname.trans hname'.symm)]
  | none => exact absurd hname (jobRowNamed?_eq_none hnamed r hr)

/-- **Where the same jobs are, saving a job does the same.** -/
theorem saveJob_eq (hs : s.JobsKeyed) (hx : s.SameJobs x) :
    x.saveJob spec t = s.edit spec t x := by
  unfold saveJob edit
  cases hnamed : s.jobRowNamed? spec.name with
  | some r =>
    obtain ⟨hr, hname⟩ := jobRowNamed?_eq_some hnamed
    obtain ⟨r', hr', -, hname'⟩ := hx.symm.exists_row hr
    rw [if_pos (List.any_eq_true.2 ⟨r', hr', by simp [hname', hname]⟩)]
    have hrows : ∀ r' ∈ x.jobs, (if r'.name == spec.name then r'.redefine spec t else r') =
        if r'.id == r.id then r'.redefine spec t else r' := by
      intro r' hr'
      obtain ⟨r₀, hr₀, hid₀, hname₀⟩ := hx.exists_row hr'
      have hiff : r'.name = spec.name ↔ r'.id = r.id := by
        rw [← hid₀, ← hname₀, ← hname]
        exact ⟨fun h => congrArg _ (List.inj_on_of_nodup_map hs.names hr₀ hr h),
          fun h => congrArg _ (List.inj_on_of_nodup_map hs.ids hr₀ hr h)⟩
      simp only [beq_iff_eq, hiff]
    simp only [updateJob, List.map_congr_left hrows]
  | none =>
    have habsent : ¬ x.jobs.any (·.name == spec.name) = true := by
      intro hany
      obtain ⟨r', hr', hname'⟩ := List.any_eq_true.1 hany
      obtain ⟨r₀, hr₀, -, hname₀⟩ := hx.exists_row hr'
      exact jobRowNamed?_eq_none hnamed r₀ hr₀ (hname₀.trans (by simpa using hname'))
    have hothers : x.jobs.filter (·.id != jobIdOfSerial s.jobSerial) = x.jobs :=
      List.filter_eq_self.2 fun r hr => by
        simpa using fun hid : r.id = jobIdOfSerial s.jobSerial =>
          hs.fresh (hx.ids ▸ hid ▸ List.mem_map_of_mem hr)
    rw [if_neg habsent, hothers, hx.jobSerial]

end JobsKeyed

/-- It does not matter whether a job was disabled before it was saved. -/
theorem edit_disableJob (s : Store) (spec : JobSpec) (t : Int) (z : Store) :
    s.edit spec t (z.disableJob (s.editedId spec) t) = s.edit spec t z := by
  unfold edit editedId
  cases s.jobRowNamed? spec.name with
  | some r =>
    simp only [disableJob, updateJob, List.map_map]
    congr 1
    refine List.map_congr_left fun r' _ => ?_
    by_cases hid : r'.id = r.id
    · simp [hid, JobRow.touch, JobRow.redefine]
    · simp [hid]
  | none =>
    have hothers := (clears_disableJob (jobIdOfSerial s.jobSerial) t).others z
    simp only [hothers]
    rfl

end Store

/-! ### Going by a definition -/

/-- The next fire of a definition after an instant. -/
def JobSpec.nextFire (spec : JobSpec) (after : Int) : Except FireFailure Int :=
  (JobRow.ofSpec spec.name spec after).decode.nextFire after

/-- **A row goes by a specification**, seen at a time: it has its schedule, its next fire is that of
the specification if there is one, and when it was to fire and does not, the specification cannot be
scheduled. -/
structure JobRow.Follows (r : JobRow) (spec : JobSpec) (now : Int) : Prop where
  /-- The cron expression is that of the specification. -/
  cronExpression : r.cronExpression = spec.cronExpression
  /-- The interval is that of the specification. -/
  intervalSeconds : r.intervalSeconds = spec.intervalSeconds
  /-- The next fire is that of the specification. -/
  nextRunAt : ∀ fire, r.nextRunAt = some fire → spec.nextFire now = .ok fire
  /-- The job is disabled only because the specification cannot be scheduled. -/
  enabled : spec.enabled = true → r.decode.enabled = false →
    ∃ e, spec.nextFire now = .error (.definition e)

/-- A row that is redefined goes by its new definition. -/
theorem JobRow.follows_redefine (r : JobRow) (spec : JobSpec) (t now : Int) :
    (r.redefine spec t).Follows spec now where
  cronExpression := rfl
  intervalSeconds := rfl
  nextRunAt _ hfire := by cases hfire
  enabled hon hoff := by simp [JobRow.decode, JobRow.redefine, hon] at hoff

/-- A new row goes by its definition. -/
theorem JobRow.follows_ofSpec (id : String) (spec : JobSpec) (t now : Int) :
    (JobRow.ofSpec id spec t).Follows spec now where
  cronExpression := rfl
  intervalSeconds := rfl
  nextRunAt _ hfire := by cases hfire
  enabled hon hoff := by simp [JobRow.decode, JobRow.ofSpec, hon] at hoff

theorem JobRow.Follows.nextFire_eq {r : JobRow} {spec : JobSpec} {now : Int}
    (h : r.Follows spec now) : r.decode.nextFire now = spec.nextFire now := by
  have hexpression : r.decode.expression? =
      (JobRow.ofSpec spec.name spec now).decode.expression? := by
    simp only [Job.expression?, JobRow.decode, JobRow.ofSpec, h.cronExpression]
  have hinterval : r.decode.intervalSeconds =
      (JobRow.ofSpec spec.name spec now).decode.intervalSeconds := h.intervalSeconds
  simp only [JobSpec.nextFire, Job.nextFire, hexpression, hinterval]

/-- A statement of a pass goes by a specification where it is about a job. -/
def Statement.Heeds {α : Type} (spec : JobSpec) (jobId : String) (now : Int) : Statement α → Prop
  | .enabledJobs | .jobsWithoutNextRun | .dueJobIds _ => True
  | .setNextRun id next _ => id = jobId → ∃ fire, next = some fire ∧ spec.nextFire now = .ok fire
  | .disableInvalid id _ => id = jobId → ∃ e, spec.nextFire now = .error (.definition e)
  | .enqueue _ time => time = now
  | _ => False

/-- **A write of a pass that does not go by a specification**: the next fire of the job is set
though the specification is off or has another one, or the job is disabled though the specification
is on and can be scheduled. -/
def Statement.Overrules {α : Type} (spec : JobSpec) (jobId : String) (now : Int) :
    Statement α → Prop
  | .setNextRun id next _ => id = jobId ∧
      ¬ (spec.enabled = true ∧ ∃ fire, next = some fire ∧ spec.nextFire now = .ok fire)
  | .disableInvalid id _ => id = jobId ∧ spec.enabled = true ∧
      ¬ ∃ e, spec.nextFire now = .error (.definition e)
  | _ => False

namespace Store

variable {s x : Store} {spec : JobSpec} {jobId : String} {t now : Int}

/-- The rows of a job go by a specification. -/
def Follows (s : Store) (jobId : String) (spec : JobSpec) (now : Int) : Prop :=
  ∀ r ∈ s.jobs, r.id = jobId → r.Follows spec now

theorem Follows.updateJob {id : String} {f : JobRow → JobRow} (h : s.Follows jobId spec now)
    (hf : ∀ r, (f r).id = r.id)
    (hself : id = jobId → ∀ r, r.Follows spec now → (f r).Follows spec now) :
    (s.updateJob id f).Follows jobId spec now := by
  intro r' hr' hid
  rcases mem_updateJob hr' with ⟨r, hr, hrid, rfl⟩ | ⟨hr, -⟩
  · rw [hf] at hid
    exact hself (hrid.symm.trans hid) r (h r hr hid)
  · exact h r' hr hid

/-- A job that goes by a specification does not fire before its next fire. -/
theorem Follows.enqueue_self (h : s.Follows jobId spec now) :
    s.enqueue jobId now = (.ok .notDue, s) := by
  refine enqueue_of_not_pending fun r hr hid => ?_
  cases hpending : r.decode.pendingFire? now with
  | none => rfl
  | some fire =>
    obtain ⟨-, hnext, hle⟩ := Job.pendingFire?_eq_some hpending
    have hfire : r.decode.nextFire now = .ok fire :=
      (h r hr hid).nextFire_eq.trans ((h r hr hid).nextRunAt fire hnext)
    exact absurd (Job.lt_nextFire hfire) (Int.not_lt.2 hle)

/-- **What goes by the specification leaves the rows of the job go by it.** -/
theorem Follows.run {α : Type} {st : Statement α} (h : s.Follows jobId spec now)
    (hst : st.Heeds spec jobId now) : (st.run s).2.Follows jobId spec now := by
  cases st with
  | setNextRun id next time =>
    refine h.updateJob (fun _ => rfl) fun hid r hr => ?_
    obtain ⟨fire, rfl, hfire⟩ := hst hid
    exact ⟨hr.cronExpression, hr.intervalSeconds, fun _ heq => by cases heq; exact hfire,
      hr.enabled⟩
  | disableInvalid id time =>
    refine h.updateJob (fun _ => rfl) fun hid r hr => ?_
    exact ⟨hr.cronExpression, hr.intervalSeconds, hr.nextRunAt, fun _ _ => hst hid⟩
  | enqueue id time =>
    obtain rfl : time = now := hst
    by_cases hid : id = jobId
    · subst hid
      rw [Statement.run, h.enqueue_self]
      exact h
    · intro r hr hrid
      have hspares : (Statement.enqueue id time).SparesJob jobId := hid
      exact h r ((hspares.mem_jobs hrid).1 hr) hrid
  | enabledJobs => exact h
  | jobsWithoutNextRun => exact h
  | dueJobIds time => exact h
  | _ => exact hst.elim

theorem Follows.runStore {α : Type} {p : Program α} (h : s.Follows jobId spec now)
    (hp : p.Only fun _ st => st.Heeds spec jobId now) :
    (p.runStore s).2.Follows jobId spec now :=
  hp.keeps (I := fun x => x.Follows jobId spec now) (fun _ _ _ hst hx => hx.run hst) h

/-- Right after a job was saved its row goes by what was saved. -/
theorem follows_edit (s : Store) (spec : JobSpec) (t now : Int) (z : Store) :
    (s.edit spec t z).Follows (s.editedId spec) spec now := by
  intro r hr hid
  unfold edit editedId at *
  cases hnamed : s.jobRowNamed? spec.name with
  | some r₀ =>
    rw [hnamed] at hr hid
    rcases mem_updateJob hr with ⟨r', -, -, rfl⟩ | ⟨-, hne⟩
    · exact r'.follows_redefine spec t now
    · exact absurd hid hne
  | none =>
    rw [hnamed] at hr hid
    rcases List.mem_append.1 hr with hold | hnew
    · exact absurd hid (by simpa using (List.mem_filter.1 hold).2)
    · rw [List.mem_singleton.1 hnew]
      exact JobRow.follows_ofSpec _ spec t now

/-- **A pass goes by the definitions that it reads.** -/
theorem Follows.tick (h : s.Follows jobId spec now) :
    ((tick now).runStore s).2.Follows jobId spec now := by
  have hread : ∀ j ∈ s.jobsWithoutNextRun, j.id = jobId → j.nextFire now = spec.nextFire now := by
    intro j hj hid
    obtain ⟨r, hr, rfl⟩ := List.mem_map.1 hj
    exact (h r (List.mem_filter.1 hr).1 hid).nextFire_eq
  have hfill : (fillNextRuns now s.jobsWithoutNextRun).Only fun _ st =>
      st.Heeds spec jobId now :=
    only_fillNextRuns (fun j hj next hnext hid => ⟨next, rfl, (hread j hj hid).symm.trans hnext⟩)
      fun j hj e he hid => ⟨e, (hread j hj hid).symm.trans he⟩
  have hdue : (fireDue now).Only fun _ st => st.Heeds spec jobId now :=
    Only.andThen (Only.attempt trivial) fun ids => only_fireJobs fun _ _ => rfl
  rw [runStore_tick]
  exact h.runStore (hfill.andThen fun _ => hdue)

/-- A reconciliation goes by the definitions that it reads. -/
theorem Follows.reconcile (h : s.Follows jobId spec now) :
    ((reconcile now).runStore s).2.Follows jobId spec now := by
  have hread : ∀ j ∈ s.enabledJobs, j.id = jobId → j.nextFire now = spec.nextFire now := by
    intro j hj hid
    obtain ⟨r, hr, rfl⟩ := List.mem_map.1 hj
    exact (h r (List.mem_filter.1 (List.mem_mergeSort.1 hr)).1 hid).nextFire_eq
  have hjobs : (reconcileJobs now s.enabledJobs).Only fun _ st => st.Heeds spec jobId now :=
    only_reconcileJobs (fun j hj next hnext hid => ⟨next, rfl, (hread j hj hid).symm.trans hnext⟩)
      fun j hj e he hid => ⟨e, (hread j hj hid).symm.trans he⟩
  have hrest : ((reconcileJobs now s.enabledJobs).runStore s).2.Follows jobId spec now :=
    h.runStore hjobs
  exact hrest

end Store

/-! ### An edit on the way of a pass -/

namespace Program.Steps

variable {s x : Store} {now : Int} {jobId : String} {way : List Access}

/-- A pass that has begun reschedules only jobs that were there when it began. -/
theorem only_of_tick {q : Failing AccessError (List EnqueueOutcome)}
    (h : Steps (tick now) s way q x) (hbegun : way ≠ []) (hnew : ∀ r ∈ s.jobs, r.id ≠ jobId) :
    q.Only fun _ st => ¬ st.Reschedules jobId := by
  have hread : ∀ j ∈ s.jobsWithoutNextRun, j.id ≠ jobId := by
    intro j hj
    obtain ⟨r, hr, rfl⟩ := List.mem_map.1 hj
    exact hnew r (List.mem_filter.1 hr).1
  rw [tick_eq] at h
  cases h with
  | refl => exact absurd rfl hbegun
  | step rest =>
    have hpass := (only_others_fillNextRuns now hread).andThen fun _ =>
      only_others_fireDue now jobId
    exact rest.only hpass

/-- The same of a reconciliation. -/
theorem only_of_reconcile {q : Failing AccessError Unit} (h : Steps (reconcile now) s way q x)
    (hbegun : way ≠ []) (hnew : ∀ r ∈ s.jobs, r.id ≠ jobId) :
    q.Only fun _ st => ¬ st.Reschedules jobId := by
  have hread : ∀ j ∈ s.enabledJobs, j.id ≠ jobId := by
    intro j hj
    obtain ⟨r, hr, rfl⟩ := List.mem_map.1 hj
    exact hnew r (List.mem_filter.1 (List.mem_mergeSort.1 hr)).1
  cases h with
  | refl => exact absurd rfl hbegun
  | step rest =>
    have hjobs := only_others_reconcileJobs now hread
    exact rest.only hjobs

end Program.Steps

/-! ### Writes that go by the new definition -/

section Heeding

variable {γ : Type} {st : Statement γ} {s : Store} {spec : JobSpec} {r : JobRow} {j k : Job}
  {jobId : String} {t now : Int} {needs : Job → Bool}

/-- A write that goes by a specification is what a job with that specification demands. -/
theorem Scheduler.Demands.of_not_overrules (h : Demands (fun _ => true) now j ⟨γ, st⟩)
    (hself : st.Reschedules jobId) (hon : spec.enabled = true)
    (hheeds : ¬ st.Overrules spec jobId now) (hid : k.id = jobId)
    (hnext : k.nextFire now = spec.nextFire now) (hneeds : needs k = true) :
    Demands needs now k ⟨γ, st⟩ := by
  have hjk : j.id = k.id := (h.reschedules_iff.1 hself).trans hid.symm
  cases h with
  | setNextRun hany hfire =>
    obtain ⟨-, fire, hsame, hspec⟩ := not_not.1 fun hnot => hheeds ⟨hjk.trans hid, hnot⟩
    cases hsame
    rw [hjk]
    exact .setNextRun hneeds (hnext.trans hspec)
  | disable hfails =>
    obtain ⟨e, hspec⟩ := not_not.1 fun hnot => hheeds ⟨hjk.trans hid, hon, hnot⟩
    rw [hjk]
    exact .disable (hnext.trans hspec)

/-- Disabling a job goes together with saving it as one that is off. -/
theorem Statement.commutes_redefine (hoff : spec.enabled = false) (hself : st.Reschedules jobId)
    (hheeds : ¬ st.Overrules spec jobId now) :
    st.Commutes (·.updateJob jobId (·.redefine spec t)) := by
  cases st with
  | setNextRun id next now' =>
    exact absurd ⟨Option.some.inj hself, fun h => by simp [hoff] at h⟩ hheeds
  | disableInvalid id now' =>
    obtain rfl : id = jobId := Option.some.inj hself
    intro s
    refine Prod.ext rfl ?_
    simp only [Statement.run, Store.disableInvalid, Store.updateJob, List.map_map]
    congr 1
    refine List.map_congr_left fun r _ => ?_
    by_cases hid : r.id = id
    · simp [hid, JobRow.touch, JobRow.redefine, hoff, flagNumber, Int.max_assoc, Int.max_comm t]
    · simp [hid]
  | _ => cases hself

theorem Statement.Overrules.reschedules (h : st.Overrules spec jobId now) :
    st.Reschedules jobId := by
  cases st with
  | setNextRun id next now' => exact congrArg some h.1
  | disableInvalid id now' => exact congrArg some h.1
  | _ => exact h.elim

/-- **What is yet to be written about the saved job goes together with the edit, or is what the
saved job demands.** -/
theorem Program.Along.commutes_or_demands {p : Failing AccessError Unit}
    (hheeds : p.Along (fun _ st => ¬ st.Overrules spec r.id now) s)
    (hp : p.Only fun γ st => ∃ j, Scheduler.Demands (fun _ => true) now j ⟨γ, st⟩) :
    p.Along (fun _ st => st.Reschedules r.id → st.Commutes (·.updateJob r.id (·.redefine spec t)))
        s ∨
      spec.enabled = true ∧ ¬ p.Along (fun _ st => ¬ st.Reschedules r.id) s ∧
        ∀ needs : Job → Bool, needs (r.redefine spec t).decode = true →
          p.Along (fun γ st => st.Reschedules r.id →
            Scheduler.Demands needs now (r.redefine spec t).decode ⟨γ, st⟩) s := by
  by_cases hspares : p.Along (fun _ st => ¬ st.Reschedules r.id) s
  · exact Or.inl (hspares.mono fun _ _ hst hself => absurd hself hst)
  cases hon : spec.enabled with
  | false =>
    exact Or.inl (hheeds.mono fun _ _ hst hself => Statement.commutes_redefine hon hself hst)
  | true =>
    refine Or.inr ⟨rfl, hspares, fun needs hneeds => hheeds.and hp fun _ _ ⟨j, hj⟩ hst hself => ?_⟩
    exact hj.of_not_overrules hself hon hst rfl
      (r.follows_redefine spec t now).nextFire_eq hneeds

end Heeding

namespace Store.JobsKeyed

variable {s x : Store} {spec : JobSpec} {t now : Int} {way : List Access}

/-- Where a job has the name, it is that job that is edited. -/
theorem edit_of_named {r : JobRow} (hnamed : s.jobRowNamed? spec.name = some r) :
    s.edit spec t = (·.updateJob r.id (·.redefine spec t)) ∧ s.editedId spec = r.id := by
  constructor
  · funext x
    rw [edit, hnamed]
  · rw [editedId, hnamed]

/-- Where no job has the name, no row has the identifier of the job that is saved. -/
theorem id_ne_editedId (hs : s.JobsKeyed) (hnamed : s.jobRowNamed? spec.name = none) :
    ∀ r ∈ s.jobs, r.id ≠ s.editedId spec := fun r hr hid =>
  jobRowNamed?_eq_none hnamed r hr (hs.name_eq hr hid)

/-- **The rest of a pass, after an edit that it does not overrule**: what it writes about the edited
job goes together with the edit, or the edit comes before the pass. -/
theorem tick_commutes_or_after (hs : s.JobsKeyed) {q : Failing AccessError (List EnqueueOutcome)}
    (h : Steps (tick now) s way q x) (hbegun : way ≠ [])
    (hheeds : ∀ r ∈ s.jobs, r.name = spec.name →
      q.Along (fun _ st => ¬ st.Overrules spec r.id now) (s.edit spec t x)) :
    q.Along (fun _ st => st.Reschedules (s.editedId spec) → st.Commutes (s.edit spec t))
        (s.edit spec t x) ∨
      (q.runStore (s.edit spec t x)).2 = ((tick now).runStore (s.edit spec t s)).2 := by
  cases hnamed : s.jobRowNamed? spec.name with
  | none =>
    have hspares := h.only_of_tick hbegun (hs.id_ne_editedId hnamed)
    exact Or.inl ((hspares.along _).mono fun _ _ hst hself => absurd hself hst)
  | some r =>
    obtain ⟨hr, hname⟩ := jobRowNamed?_eq_some hnamed
    have hrest := hheeds r hr hname
    obtain ⟨hedit, hid⟩ := edit_of_named (t := t) hnamed
    rw [hedit] at hrest ⊢
    rw [hid]
    rcases steps_tick h hbegun with ⟨way', p, hp, rfl⟩ | ⟨y, way', -, hfiring⟩
    · have hwrites := hp.only (only_demands_fillNextRuns now s.jobsWithoutNextRun)
      rcases (along_bind hrest).commutes_or_demands hwrites with hgoes | ⟨hon, hagain, hdemands⟩
      · exact Or.inl (hgoes.andThen fun _ =>
          (only_others_fireDue now r.id).mono fun _ _ hst hself => absurd hself hst)
      · have hmissing : (r.redefine spec t).isMissing = true := by
          simp [JobRow.isMissing, JobRow.redefine, hon, flagNumber]
        have hfilled := runStore_filled_before (f := (·.redefine spec t)) hs.ids hr
          (fun _ => rfl) hmissing hp hagain (hdemands _ rfl)
        refine Or.inr ?_
        rw [runStore_tick, andThen, andThen, runStore_bind, runStore_bind, hfilled]
    · have hfires : q.Only fun _ st => ¬ st.Reschedules r.id :=
        hfiring.only (only_others_fireJobs now _ r.id)
      exact Or.inl ((hfires.along _).mono fun _ _ hst hself => absurd hself hst)

/-- The same of a reconciliation. -/
theorem reconcile_commutes_or_after (hs : s.JobsKeyed) {q : Failing AccessError Unit}
    (h : Steps (reconcile now) s way q x) (hbegun : way ≠ [])
    (hheeds : ∀ r ∈ s.jobs, r.name = spec.name →
      q.Along (fun _ st => ¬ st.Overrules spec r.id now) (s.edit spec t x)) :
    q.Along (fun _ st => st.Reschedules (s.editedId spec) → st.Commutes (s.edit spec t))
        (s.edit spec t x) ∨
      (q.runStore (s.edit spec t x)).2 = ((reconcile now).runStore (s.edit spec t s)).2 := by
  cases hnamed : s.jobRowNamed? spec.name with
  | none =>
    have hspares := h.only_of_reconcile hbegun (hs.id_ne_editedId hnamed)
    exact Or.inl ((hspares.along _).mono fun _ _ hst hself => absurd hself hst)
  | some r =>
    obtain ⟨hr, hname⟩ := jobRowNamed?_eq_some hnamed
    have hrest := hheeds r hr hname
    obtain ⟨hedit, hid⟩ := edit_of_named (t := t) hnamed
    rw [hedit] at hrest ⊢
    rw [hid]
    cases h with
    | refl => exact absurd rfl hbegun
    | step hjobs =>
      change Steps (reconcileJobs now s.enabledJobs) s _ q x at hjobs
      have hwrites := hjobs.only (only_demands_reconcileJobs now s.enabledJobs)
      rcases hrest.commutes_or_demands hwrites with hgoes | ⟨hon, hagain, hdemands⟩
      · exact Or.inl hgoes
      · have hmissing : (r.redefine spec t).isMissing = true := by
          simp [JobRow.isMissing, JobRow.redefine, hon, flagNumber]
        have hreconciled := runStore_reconciled_before (f := (·.redefine spec t)) hs.ids hr
          (fun _ => rfl) hmissing hjobs hagain (hdemands _ rfl)
        exact Or.inr (congrArg Prod.snd hreconciled)

/-- **An edit on the way of a pass**: it comes to one after the other, or to a fire withdrawn. -/
theorem tick_beside_edit (hs : s.JobsKeyed) {q : Failing AccessError (List EnqueueOutcome)}
    (h : Steps (tick now) s way q x)
    (hheeds : way ≠ [] → ∀ r ∈ s.jobs, r.name = spec.name →
      q.Along (fun _ st => ¬ st.Overrules spec r.id now) (x.saveJob spec t)) :
    (q.runStore (x.saveJob spec t)).2 = ((tick now).runStore s).2.saveJob spec t ∨
      (q.runStore (x.saveJob spec t)).2 = ((tick now).runStore (s.saveJob spec t)).2 ∨
      ∃ r ∈ s.jobs, r.name = spec.name ∧ r.enabled = 1 ∧ (∃ fire ≤ now, r.nextRunAt = some fire) ∧
        (q.runStore (x.saveJob spec t)).2 =
          ((tick now).runStore (s.disableJob r.id t)).2.saveJob spec t := by
  by_cases hbegun : way = []
  · subst hbegun
    cases h
    exact Or.inr (Or.inl rfl)
  have hx : s.SameJobs x := (SameJobs.refl s).steps (only_ofPass_tick now) h
  have hedit (z : Store) (hz : s.SameJobs z) :
      ((tick now).runStore z).2.saveJob spec t = s.edit spec t ((tick now).runStore z).2 :=
    hs.saveJob_eq (hz.runStore (only_ofPass_tick now))
  rw [hs.saveJob_eq hx] at hheeds ⊢
  rw [hs.saveJob_eq (.refl s)]
  rcases hs.tick_commutes_or_after h hbegun (hheeds hbegun) with halong | hfirst
  · rcases (s.clears_edit spec t).tick_interrupted (s.edit_disableJob spec t) hs.ids h hbegun halong
      with hlast | ⟨⟨r, hr, hid, henabled, hdue⟩, hwithdrawn⟩
    · exact Or.inl (hlast.trans (hedit s (.refl s)).symm)
    · refine Or.inr (Or.inr ⟨r, hr, hs.name_eq hr hid, henabled, hdue, hwithdrawn.trans ?_⟩)
      have hoff : s.SameJobs (s.disableJob r.id t) :=
        s.sameJobs_updateJob r.id (fun _ => rfl) fun _ => rfl
      rw [hedit _ hoff, hid]
  · exact Or.inr (Or.inl hfirst)

/-- An edit on the way of a reconciliation: it comes to one after the other. -/
theorem reconcile_beside_edit (hs : s.JobsKeyed) {q : Failing AccessError Unit}
    (h : Steps (reconcile now) s way q x)
    (hheeds : way ≠ [] → ∀ r ∈ s.jobs, r.name = spec.name →
      q.Along (fun _ st => ¬ st.Overrules spec r.id now) (x.saveJob spec t)) :
    (q.runStore (x.saveJob spec t)).2 = ((reconcile now).runStore s).2.saveJob spec t ∨
      (q.runStore (x.saveJob spec t)).2 = ((reconcile now).runStore (s.saveJob spec t)).2 := by
  by_cases hbegun : way = []
  · subst hbegun
    cases h
    exact Or.inr rfl
  have hx : s.SameJobs x := (SameJobs.refl s).steps (only_ofPass_reconcile now) h
  rw [hs.saveJob_eq hx] at hheeds ⊢
  rw [hs.saveJob_eq (.refl s), hs.saveJob_eq
    ((SameJobs.refl s).runStore (only_ofPass_reconcile now))]
  rcases hs.reconcile_commutes_or_after h hbegun (hheeds hbegun) with halong | hfirst
  · exact Or.inl ((s.clears_edit spec t).toTouches.reconcile_interrupted h hbegun halong)
  · exact Or.inr hfirst

/-- After a job was saved, a row with its name has its identifier. -/
theorem id_eq_of_saved (hs : s.JobsKeyed) {z : Store} (hz : s.SameJobs z)
    (hx : (s.edit spec t z).SameJobs x) {r : JobRow} (hr : r ∈ x.jobs)
    (hname : r.name = spec.name) :
    r.id = s.editedId spec := by
  obtain ⟨r', hr', hid, hname'⟩ := hx.exists_row hr
  have hold (r₀ : JobRow) (hr₀ : r₀ ∈ z.jobs) (hname₀ : r₀.name = spec.name) :
      r₀.id = s.editedId spec := by
    obtain ⟨r₁, hr₁, hid₁, hname₁⟩ := hz.exists_row hr₀
    rw [← hid₁, hs.id_eq hr₁ (hname₁.trans hname₀)]
  rw [← hid]
  rw [hname] at hname'
  unfold edit at hr'
  cases hnamed : s.jobRowNamed? spec.name with
  | some r₂ =>
    rw [hnamed] at hr'
    rcases mem_updateJob hr' with ⟨r₀, hr₀, -, rfl⟩ | ⟨hr₀, -⟩
    · exact hold r₀ hr₀ hname'
    · exact hold r' hr₀ hname'
  | none =>
    rw [hnamed] at hr'
    rcases List.mem_append.1 hr' with hmem | hnew
    · exact hold r' (List.mem_filter.1 hmem).1 hname'
    · rw [List.mem_singleton.1 hnew, editedId, hnamed]
      rfl

/-- **The saved job goes by its new definition**: right after it was saved, and after a pass or a
reconciliation that follows. -/
theorem follows_saved (hs : s.JobsKeyed) {z : Store} (hz : s.SameJobs z)
    (hx : x = z.saveJob spec t ∨ x = ((tick now).runStore (z.saveJob spec t)).2 ∨
      x = ((reconcile now).runStore (z.saveJob spec t)).2) {r : JobRow} (hr : r ∈ x.jobs)
    (hname : r.name = spec.name) : r.Follows spec now := by
  have hsaved := follows_edit s spec t now z
  rw [hs.saveJob_eq hz] at hx
  have hid (hsame : (s.edit spec t z).SameJobs x) : r.id = s.editedId spec :=
    hs.id_eq_of_saved hz hsame hr hname
  rcases hx with rfl | rfl | rfl
  · exact hsaved r hr (hid (.refl _))
  · exact hsaved.tick r hr (hid ((SameJobs.refl _).runStore (only_ofPass_tick now)))
  · exact hsaved.reconcile r hr (hid ((SameJobs.refl _).runStore (only_ofPass_reconcile now)))

end Store.JobsKeyed

/-! ### Operations that nothing interrupts -/

namespace Store

variable {s : Store} {now t : Int}

theorem perform_tick (s : Store) (now : Int) :
    s.perform (.tick now) = ((tick now).runStore s).2 := by
  rw [perform, Operation.program, silent, runStore_bind]
  rfl

theorem perform_reconcile (s : Store) (now : Int) :
    s.perform (.reconcile now) = ((reconcile now).runStore s).2 := by
  rw [perform, Operation.program, silent, runStore_bind]
  rfl

theorem perform_saveJob {spec v : JobSpec} (hv : spec.validate = .ok v) (s : Store) (t : Int) :
    s.perform (.saveJob spec t) = s.saveJob v t := by
  obtain ⟨next, hnext, hreads⟩ := Session.exists_call_saveJob hv t
  rw [perform_eq, hnext]
  exact (hreads _).keeps (I := (· = s.saveJob v t)) (fun _ st x hst hx => (hst x).trans hx) rfl

end Store

/-! ### An edit beside a pass -/

namespace Session

variable {s : Store} {spec v : JobSpec} {t now : Int} {pass : Operation} {order : List Bool}
  {d : Session Bool}

/-- **A pass at a time that had begun before a job was saved overrules what was saved**: what it
writes afterwards rests on the definition that it had read, and does not go by the new one. -/
def OverwritesEdit (history : List Access) (spec : JobSpec) (t now : Int) (jobId : String) : Prop :=
  ∃ before later, history = before ++ ⟨Unit, .saveJob spec t⟩ :: later ∧ before ≠ [] ∧
    ∃ a ∈ later, a.2.Overrules spec jobId now

/-- A program beside the saving of a job is interrupted by it once. -/
theorem duet_saveJob (hv : spec.validate = .ok v) (hd : d = duet s pass (.saveJob spec t) order)
    (hrest : d.AtRest) :
    ∃ way q x later, Steps pass.call s way q x ∧ d.store = (q.runStore (x.saveJob v t)).2 ∧
      d.history = way ++ ⟨Unit, .saveJob v t⟩ :: later ∧
      ∀ Q : (γ : Type) → Statement γ → Prop, (∀ a ∈ later, Q a.1 a.2) →
        q.Along Q (x.saveJob v t) := by
  obtain ⟨next, hnext, hreads⟩ := exists_call_saveJob hv t
  let taken : Session Bool :=
    ((opening s).goOn true pass.call).goOn false (Operation.saveJob spec t).call
  have hduet : d = taken.play (order.map .act) := hd
  have hpass : taken.rest true = pass.call := rfl
  have hedit : taken.rest false = .perform (.saveJob v t) next :=
    (rest_goOn_self _ _ _).trans hnext
  rw [hduet] at hrest ⊢
  obtain ⟨way, q, x, later, hway, hstore, hhistory, halong⟩ :=
    play_beside_edit hpass hedit hreads hrest
  exact ⟨way, q, x, later, hway, hstore, hhistory, halong⟩

/-- The way of a pass that is taken up as an operation is the way of the pass. -/
theorem steps_of_call {α : Type} {p : Program α} {way : List Access} {q : Program Reply}
    {x : Store} (h : Steps (p.silent.bind fun _ => done Reply.nothing) s way q x) :
    ∃ p', Steps p s way p' x ∧ (∀ y, (q.runStore y).2 = (p'.runStore y).2) ∧
      ∀ Q y, q.Along Q y → p'.Along Q y := by
  rw [silent, bind_assoc] at h
  obtain ⟨p', hp', rfl⟩ := Steps.of_map h
  exact ⟨p', hp', fun y => by rw [runStore_bind]; rfl, fun _ _ => along_bind⟩

/-- **How an edit and a pass end** that interleave. -/
theorem duet_outcome (hs : s.JobsKeyed) (hv : spec.validate = .ok v)
    (hpass : pass = .tick now ∨ pass = .reconcile now)
    (hd : d = duet s pass (.saveJob spec t) order) (hrest : d.AtRest)
    (hstale : ∀ r ∈ s.jobs, r.name = v.name → ¬ OverwritesEdit d.history v t now r.id) :
    d.store = (s.perform pass).saveJob v t ∨ d.store = (s.saveJob v t).perform pass ∨
      pass = .tick now ∧ ∃ r ∈ s.jobs, r.name = v.name ∧ r.enabled = 1 ∧
        (∃ fire ≤ now, r.nextRunAt = some fire) ∧
        d.store = ((s.disableJob r.id t).perform pass).saveJob v t := by
  obtain ⟨way, q, x, later, hway, hstore, hhistory, halong⟩ := duet_saveJob hv hd hrest
  have hheeds : way ≠ [] → ∀ r ∈ s.jobs, r.name = v.name →
      q.Along (fun _ st => ¬ st.Overrules v r.id now) (x.saveJob v t) := by
    intro hbegun r hr hname
    refine halong _ fun a ha hover => ?_
    exact hstale r hr hname ⟨way, later, hhistory, hbegun, a, ha, hover⟩
  rcases hpass with rfl | rfl
  · obtain ⟨p, hp, hend, halong⟩ := steps_of_call hway
    have hbeside := hs.tick_beside_edit hp fun hbegun r hr hname =>
      halong _ _ (hheeds hbegun r hr hname)
    simpa only [Store.perform_tick, hstore, hend, true_and] using hbeside
  · obtain ⟨p, hp, hend, halong⟩ := steps_of_call hway
    have hbeside := hs.reconcile_beside_edit hp fun hbegun r hr hname =>
      halong _ _ (hheeds hbegun r hr hname)
    simp only [Store.perform_reconcile, hstore, hend]
    exact hbeside.imp_right Or.inl

/-- **No edit is lost beside a pass.**  One party passes over the jobs, or reconciles them, while
the other one saves a job, and their statements interleave in any order.  Unless the pass, begun
before the edit, overrules the new definition after it, the store ends as after one operation and
then the other, in one of the two orders, or, when the job was due as the pass began, as if it had
been disabled before the pass and saved after it.  And the saved job goes by its new definition. -/
theorem edit_serial (hs : s.JobsKeyed) (hv : spec.validate = .ok v)
    (hpass : pass = .tick now ∨ pass = .reconcile now)
    (hd : d = duet s pass (.saveJob spec t) order) (hrest : d.AtRest)
    (hstale : ∀ r ∈ s.jobs, r.name = v.name → ¬ OverwritesEdit d.history v t now r.id) :
    (d.store = (s.perform pass).perform (.saveJob spec t) ∨
      d.store = (s.perform (.saveJob spec t)).perform pass ∨
      pass = .tick now ∧ ∃ r ∈ s.jobs, r.name = v.name ∧ r.enabled = 1 ∧
        (∃ fire ≤ now, r.nextRunAt = some fire) ∧
        d.store = ((s.perform (.disableJob r.id t)).perform pass).perform (.saveJob spec t)) ∧
    ∀ r ∈ d.store.jobs, r.name = v.name → r.Follows v now := by
  have houtcome := duet_outcome hs hv hpass hd hrest hstale
  simp only [Store.perform_saveJob hv]
  refine ⟨houtcome, fun r hr hname => ?_⟩
  have hsame (z : Store) (hz : s.SameJobs z) : s.SameJobs (z.perform pass) := by
    rcases hpass with rfl | rfl
    · rw [Store.perform_tick]
      exact hz.runStore (only_ofPass_tick now)
    · rw [Store.perform_reconcile]
      exact hz.runStore (only_ofPass_reconcile now)
  rcases houtcome with hlast | hfirst | ⟨-, r', -, -, -, -, hwithdrawn⟩
  · exact hs.follows_saved (hsame s (.refl s)) (Or.inl hlast) hr hname
  · have hpassed : d.store = ((tick now).runStore (s.saveJob v t)).2 ∨
        d.store = ((reconcile now).runStore (s.saveJob v t)).2 :=
      hpass.imp (fun h => by rw [hfirst, h, Store.perform_tick])
        fun h => by rw [hfirst, h, Store.perform_reconcile]
    exact hs.follows_saved (.refl s) (Or.inr hpassed) hr hname
  · have hoff : s.SameJobs (s.disableJob r'.id t) :=
      s.sameJobs_updateJob r'.id (fun _ => rfl) fun _ => rfl
    exact hs.follows_saved (hsame _ hoff) (Or.inl hwithdrawn) hr hname

/-- An hourly job that has been saved, and has no next fire yet. -/
def hourlySaved : Store := Store.empty.perform (.saveJob (.interval "report" "true" 3600) 0)

/-- An hourly job whose first fire comes at 3600. -/
def hourly : Store := hourlySaved.perform (.tick 0)

/-- The specification that is saved in place of the hourly one. -/
def everyOther : JobSpec := .interval "report" "true" 7200

/-- The hourly job is due, and it is saved between the two halves of the pass. -/
def editWhileDue : Session Bool :=
  duet hourly (.tick 3600) (.saveJob everyOther 3600) [true, false, false, true]

/-- The hourly job has no next fire, and it is saved after the pass has read it. -/
def editWhileMissing : Session Bool :=
  duet hourlySaved (.tick 0) (.saveJob everyOther 0) [true, false, false, true, true]

theorem jobsKeyed_hourly : hourly.JobsKeyed :=
  ⟨by decide +kernel, by decide +kernel, by decide +kernel⟩

theorem validate_everyOther :
    everyOther.validate = .ok { everyOther with overlapPolicy := some "forbid" } := by
  decide +kernel

theorem editWhileDue_store_ne :
    editWhileDue.store ≠ (hourly.perform (.tick 3600)).perform (.saveJob everyOther 3600) ∧
      editWhileDue.store ≠ (hourly.perform (.saveJob everyOther 3600)).perform (.tick 3600) := by
  decide +kernel

/-- The fire that had come is withdrawn, and the saved job goes by its new definition. -/
theorem edit_serial_while_due :
    (∃ r ∈ hourly.jobs, r.name = "report" ∧ editWhileDue.store =
      ((hourly.perform (.disableJob r.id 3600)).perform (.tick 3600)).perform
        (.saveJob everyOther 3600)) ∧
    ∀ r ∈ editWhileDue.store.jobs, r.name = "report" →
      r.Follows { everyOther with overlapPolicy := some "forbid" } 3600 := by
  have hwrites : ∀ a ∈ editWhileDue.history, a.2.rescheduled? = none := by decide +kernel
  have hrest : editWhileDue.AtRest := by decide +kernel
  have h := edit_serial jobsKeyed_hourly validate_everyOther (Or.inl rfl) rfl hrest
    fun r hr hname ⟨before, later, hhistory, hbegun, a, ha, hover⟩ =>
      Option.some_ne_none r.id (hover.reschedules.symm.trans (hwrites a (hhistory ▸ by simp [ha])))
  obtain ⟨hlast, hfirst⟩ := editWhileDue_store_ne
  obtain ⟨-, r, hr, hname, -, -, hstore⟩ := (h.1.resolve_left hlast).resolve_left hfirst
  exact ⟨⟨r, hr, hname, hstore⟩, h.2⟩

/-- **An edit and a pass do not always end as one after the other.**  A fire may be withdrawn that
neither order withdraws; and where the pass writes what it computed from the old definition, the
saved job does not go by its new one. -/
theorem edit_not_always_serial :
    (¬ ∀ (s : Store) (spec v : JobSpec) (t now : Int) (order : List Bool), s.JobsKeyed →
      spec.validate = .ok v → ∀ d, d = duet s (.tick now) (.saveJob spec t) order → d.AtRest →
        d.store = (s.perform (.tick now)).perform (.saveJob spec t) ∨
          d.store = (s.perform (.saveJob spec t)).perform (.tick now)) ∧
    ¬ ∀ (s : Store) (spec v : JobSpec) (t now : Int) (order : List Bool), s.JobsKeyed →
      spec.validate = .ok v → ∀ d, d = duet s (.tick now) (.saveJob spec t) order → d.AtRest →
        ∀ r ∈ d.store.jobs, r.name = v.name → r.Follows v now := by
  constructor
  · intro hserial
    have hrest : editWhileDue.AtRest := by decide +kernel
    have h :=
      hserial hourly everyOther _ 3600 3600 _ jobsKeyed_hourly validate_everyOther _ rfl hrest
    exact h.elim editWhileDue_store_ne.1 editWhileDue_store_ne.2
  · intro hfollows
    have hrest : editWhileMissing.AtRest := by decide +kernel
    have hkeyed : hourlySaved.JobsKeyed :=
      ⟨by decide +kernel, by decide +kernel, by decide +kernel⟩
    have hold : ∃ r ∈ editWhileMissing.store.jobs, r.name = "report" ∧
        r.nextRunAt = some 3600 := by decide +kernel
    obtain ⟨r, hr, hname, hnext⟩ := hold
    have hnew : ({ everyOther with overlapPolicy := some "forbid" } : JobSpec).nextFire 0 ≠
        .ok 3600 := by decide +kernel
    have hrow := hfollows hourlySaved everyOther _ 0 0 _ hkeyed validate_everyOther _ rfl hrest r hr
      hname
    exact hnew (hrow.nextRunAt 3600 hnext)

end Session

end Timetable
