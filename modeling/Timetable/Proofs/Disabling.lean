/-
**Disabling is final until the job is saved again.**

A job that is disabled does not fire, and nothing but saving it under an enabled definition enables
it again.  The statement that fires a job reads the row of the job itself, so a pass that saw the
job enabled cannot fire it once it is disabled, and writes of other statements that come late do not
revive it.  This holds of every session, whoever takes part and whatever the clocks show.

Main definitions:

* `Store.newRuns` — the runs of a job that one store has and another one has not;
* `Store.created` — the runs of a job that a history creates.

Main results:

* `Access.newRuns_cases` — a statement creates at most one run of a job, by firing it;
* `Store.JobsNumbered.created_of_disabled` — a disabled job gets no runs;
* `Store.JobsNumbered.length_created_le_one`, `Store.JobsNumbered.over_of_newRuns` — a job that is
  to fire only once gets at most one, and is over with it;
* `Session.disabling_final` — **disabling is final until the job is saved again**.
-/

import Timetable.Proofs.Specification
import Timetable.Proofs.Store.Jobs

set_option autoImplicit false
set_option relaxedAutoImplicit false

namespace Timetable

/-! ### Runs that are created -/

namespace Store

/-- The runs of a job that one store has and another one has not. -/
def newRuns (s : Store) (jobId : String) (s' : Store) : List RunRow :=
  s'.runs.filter fun run => run.jobId == jobId && s.runs.all (·.id != run.id)

/-- **The runs of a job that a history creates**, in the order in which it does. -/
def created (jobId : String) : Store → List Access → List RunRow
  | _, [] => []
  | s, a :: history => s.newRuns jobId (a.apply s) ++ created jobId (a.apply s) history

variable {s s' : Store} {jobId : String} {history : List Access} {run : RunRow}

theorem mem_newRuns : run ∈ s.newRuns jobId s' ↔
    run ∈ s'.runs ∧ run.jobId = jobId ∧ ∀ old ∈ s.runs, old.id ≠ run.id := by
  simp [newRuns]

theorem created_append (jobId : String) (s : Store) (first rest : List Access) :
    created jobId s (first ++ rest) =
      created jobId s first ++ created jobId (s.through first) rest := by
  induction first generalizing s with
  | nil => rfl
  | cons a first ih =>
    rw [List.cons_append, created, created, ih, List.append_assoc]
    rfl

/-- A history that creates runs of a job has a first statement that does. -/
theorem exists_first_created (h : created jobId s history ≠ []) :
    ∃ first a rest, history = first ++ a :: rest ∧ created jobId s first = [] ∧
      (s.through first).newRuns jobId (a.apply (s.through first)) ≠ [] := by
  induction history generalizing s with
  | nil => exact absurd rfl h
  | cons a history ih =>
    by_cases hnew : s.newRuns jobId (a.apply s) = []
    · rw [created, hnew, List.nil_append] at h
      obtain ⟨first, b, rest, rfl, hfirst, hb⟩ := ih h
      refine ⟨a :: first, b, rest, rfl, ?_, hb⟩
      rw [created, hnew, hfirst, List.nil_append]
    · exact ⟨[], a, history, rfl, rfl, hnew⟩

end Store

/-- **A statement creates at most one run of a job**, by firing it; the job was enabled then, and
moves on. -/
theorem Access.newRuns_cases {a : Access} {s : Store} {jobId : String}
    (h : s.newRuns jobId (a.apply s) ≠ []) :
    ∃ r ∈ s.jobs, r.id = jobId ∧ r.decode.enabled = true ∧ ∃ run now fire after,
      s.newRuns jobId (a.apply s) = [run] ∧ r.decode.afterFire fire = .ok after ∧
        r.moveOn fire after now ∈ (a.apply s).jobs := by
  obtain ⟨run, hrun⟩ := List.exists_mem_of_ne_nil _ h
  obtain ⟨hmem, hjob, hnew⟩ := Store.mem_newRuns.1 hrun
  rcases mem_runs hmem with ⟨old, hold, horigin⟩ | ⟨r, hr, now, fire, after, -, hpending, hafter,
      howner, -, hruns, hjobs⟩
  · exact absurd (congrArg (·.id) horigin).symm (hnew old hold)
  · refine ⟨r, hr, howner.symm.trans hjob, (Job.pendingFire?_eq_some hpending).1, run, now, fire,
      after, ?_, hafter, ?_⟩
    · have hold :
          s.runs.filter (fun run => run.jobId == jobId && s.runs.all (·.id != run.id)) = [] :=
        List.filter_eq_nil_iff.2 fun old hold hkept => by
          simpa using List.all_eq_true.1 (Bool.and_eq_true_iff.1 hkept).2 old hold
      rw [Store.newRuns, hruns, List.filter_append, hold, List.nil_append]
      exact List.filter_eq_self.2 fun x hx => by
        rw [List.mem_singleton.1 hx]
        simpa using ⟨hjob, hnew⟩
    · rw [hjobs]
      exact List.mem_map.2 ⟨r, hr, by simp⟩

namespace Store.JobsNumbered

variable {s : Store} {r : JobRow} {history : List Access}

/-! ### Jobs that are disabled -/

/-- A job is disabled as long as it is not saved. -/
theorem enabled_through (hs : s.JobsNumbered) (hr : r ∈ s.jobs) (hoff : r.decode.enabled = false)
    (hsave : ∀ a ∈ history, a.2.saves r.name = false) :
    ∀ r' ∈ (s.through history).jobs, r'.id = r.id → r'.decode.enabled = false := by
  intro r' hr' hid
  have hfollow := hs.follow_unsaved (P := fun y => y.decode.enabled = false) hr hoff hsave
    fun a _ y y' _ hunsaved hy hchange => hchange.enabled_eq_false hunsaved hy
  exact (hfollow r' hr' hid).2

/-- **A disabled job gets no runs** as long as it is not saved. -/
theorem created_of_disabled (hs : s.JobsNumbered) (hr : r ∈ s.jobs)
    (hoff : r.decode.enabled = false) (hsave : ∀ a ∈ history, a.2.saves r.name = false) :
    created r.id s history = [] := by
  by_contra hne
  obtain ⟨first, a, rest, rfl, -, hnew⟩ := exists_first_created hne
  obtain ⟨y, hy, hid, hon, -⟩ := Access.newRuns_cases hnew
  have hoff' := hs.enabled_through hr hoff
    (fun b hb => hsave b (List.mem_append_left _ hb)) y hy hid
  rw [hon] at hoff'
  cases hoff'

/-! ### Jobs that are to fire only once -/

/-- A job that is to fire only once stays one, as long as it is not saved. -/
theorem runOnce_through (hs : s.JobsNumbered) (hr : r ∈ s.jobs) (honce : r.decode.runOnce = true)
    (hsave : ∀ a ∈ history, a.2.saves r.name = false) :
    ∀ r' ∈ (s.through history).jobs, r'.id = r.id →
      r'.name = r.name ∧ r'.decode.runOnce = true := by
  refine hs.follow_unsaved hr honce hsave ?_
  intro a _ y y' _ hunsaved hy hchange
  exact (hchange.runOnce_eq hunsaved).trans hy

/-- A fire of a job that is to fire only once ends it: it is disabled, and has no next fire. -/
theorem exists_ended (hs : s.JobsNumbered) (hr : r ∈ s.jobs) (honce : r.decode.runOnce = true)
    {first : List Access} {a : Access} (hsave : ∀ b ∈ first, b.2.saves r.name = false)
    (hnew : (s.through first).newRuns r.id (a.apply (s.through first)) ≠ []) :
    ∃ r' ∈ (a.apply (s.through first)).jobs, r'.id = r.id ∧ r'.name = r.name ∧
      r'.decode.enabled = false ∧ r'.nextRunAt = none := by
  obtain ⟨y, hy, hid, -, run, now, fire, after, -, hafter, hmoved⟩ := Access.newRuns_cases hnew
  obtain ⟨hname, hyonce⟩ := hs.runOnce_through hr honce hsave y hy hid
  obtain rfl : after = (false, none) := by
    rw [Job.afterFire, if_pos hyonce] at hafter
    exact (Except.ok.inj hafter).symm
  exact ⟨_, hmoved, hid, hname, rfl, rfl⟩

/-- **A job that is to fire only once gets at most one run**, as long as it is not saved. -/
theorem length_created_le_one (hs : s.JobsNumbered) (hr : r ∈ s.jobs)
    (honce : r.decode.runOnce = true) (hsave : ∀ a ∈ history, a.2.saves r.name = false) :
    (created r.id s history).length ≤ 1 := by
  by_cases hnone : created r.id s history = []
  · simp [hnone]
  -- the first run disables the job, and then there is no other one
  obtain ⟨first, a, rest, rfl, hfirst, hnew⟩ := exists_first_created hnone
  obtain ⟨r', hr', hid, hname, hoff, -⟩ := hs.exists_ended hr honce
    (fun b hb => hsave b (List.mem_append_left _ hb)) hnew
  have hrest : created r.id (a.apply (s.through first)) rest = [] := by
    rw [← hid]
    refine ((hs.through first).apply a).created_of_disabled hr' hoff fun b hb => ?_
    rw [hname]
    exact hsave b (List.mem_append_right _ (List.mem_cons_of_mem a hb))
  obtain ⟨-, -, -, -, run, -, -, -, hone, -⟩ := Access.newRuns_cases hnew
  rw [created_append, hfirst, created, hrest, hone]
  exact Nat.le_refl 1

/-- A disabled job without a next fire has none, until one is set. -/
theorem nextRunAt_through (hs : s.JobsNumbered) (hr : r ∈ s.jobs) (hoff : r.decode.enabled = false)
    (hnext : r.nextRunAt = none) (hsave : ∀ a ∈ history, a.2.saves r.name = false)
    (hset : ∀ a ∈ history, a.2.setsNext r.id = false) :
    ∀ r' ∈ (s.through history).jobs, r'.id = r.id → r'.nextRunAt = none := by
  intro r' hr' hid
  have hfollow := hs.follow_unsaved (P := fun y => y.decode.enabled = false ∧ y.nextRunAt = none)
    hr ⟨hoff, hnext⟩ hsave fun a ha y y' hyid hunsaved hy hchange => by
      have hy_set : a.2.setsNext y.id = false := hyid ▸ hset a ha
      exact ⟨hchange.enabled_eq_false hunsaved hy.1, hchange.nextRunAt_eq_none hy_set hy.1 hy.2⟩
  exact (hfollow r' hr' hid).2.2

/-- **With its run a job that is to fire only once is over**, as long as it is not saved: it is
disabled from then on, and has no next fire until one is set. -/
theorem over_of_newRuns (hs : s.JobsNumbered) (hr : r ∈ s.jobs) (honce : r.decode.runOnce = true)
    {first rest : List Access} {a : Access}
    (hsave : ∀ b ∈ first ++ a :: rest, b.2.saves r.name = false)
    (hnew : (s.through first).newRuns r.id (a.apply (s.through first)) ≠ []) :
    (∃ r' ∈ (a.apply (s.through first)).jobs, r'.id = r.id) ∧
      ∀ r' ∈ (s.through (first ++ a :: rest)).jobs, r'.id = r.id → r'.decode.enabled = false ∧
        ((∀ b ∈ rest, b.2.setsNext r.id = false) → r'.nextRunAt = none) := by
  obtain ⟨r₁, hr₁, hid, hname, hoff, hnext⟩ := hs.exists_ended hr honce
    (fun b hb => hsave b (List.mem_append_left _ hb)) hnew
  have hx : (a.apply (s.through first)).JobsNumbered := (hs.through first).apply a
  have hrest : ∀ b ∈ rest, b.2.saves r₁.name = false := fun b hb => by
    rw [hname]
    exact hsave b (List.mem_append_right _ (List.mem_cons_of_mem a hb))
  refine ⟨⟨r₁, hr₁, hid⟩, fun r' hr' hid' => ?_⟩
  rw [through_append] at hr'
  refine ⟨hx.enabled_through hr₁ hoff hrest r' hr' (hid'.trans hid.symm), fun hset => ?_⟩
  rw [← hid] at hset
  exact hx.nextRunAt_through hr₁ hoff hnext hrest hset r' hr' (hid'.trans hid.symm)

end Store.JobsNumbered

/-! ### Sessions -/

namespace Session

variable {ι : Type} [DecidableEq ι] {s : Store}

/-- **Disabling is final until the job is saved again.**  Whatever parties do on a store, their
statements interleaved in any way: a statement enables a job that was disabled only by saving it
under an enabled definition, and creates a run of a job only while it is enabled.  So as long as a
job is not saved, a job that is to fire only once gets at most one run, and with that run it is
disabled and has no next fire until one is set; and a job that is disabled, by hand say, gets no run
and stays disabled. -/
theorem disabling_final (hs : s.JobsNumbered) (turns : List (Turn ι)) :
    ((opening s).play turns).store = s.through ((opening s).play turns).history ∧
      (∀ before a after, ((opening s).play turns).history = before ++ a :: after →
        (∀ r ∈ (s.through before).jobs, ∀ r' ∈ (s.through (before ++ [a])).jobs, r'.id = r.id →
          r.decode.enabled = false → r'.decode.enabled = true →
          ∃ i spec v now, .take i (.saveJob spec now) ∈ turns ∧ spec.validate = .ok v ∧
            spec.enabled = true ∧ v.name = r.name ∧ a = ⟨Unit, .saveJob v now⟩) ∧
        ∀ run ∈ (s.through (before ++ [a])).runs,
          (∀ old ∈ (s.through before).runs, old.id ≠ run.id) →
          ∃ r ∈ (s.through before).jobs, r.id = run.jobId ∧ r.decode.enabled = true) ∧
      ∀ before between after, ((opening s).play turns).history = before ++ between ++ after →
        ∀ r ∈ (s.through before).jobs,
          (∀ a ∈ between, a.2.saves r.name = false) →
          (r.decode.runOnce = true →
            (Store.created r.id (s.through before) between).length ≤ 1 ∧
            ∀ first a rest, between = first ++ a :: rest →
              (s.through (before ++ first)).newRuns r.id (s.through (before ++ first ++ [a])) ≠ [] →
              (∃ r' ∈ (s.through (before ++ first ++ [a])).jobs, r'.id = r.id) ∧
              ∀ r' ∈ (s.through (before ++ between)).jobs, r'.id = r.id →
                r'.decode.enabled = false ∧
                ((∀ b ∈ rest, b.2.setsNext r.id = false) → r'.nextRunAt = none)) ∧
          ((r.decode.enabled = false ∨
              ∃ earlier t, before = earlier ++ [⟨Bool, .disableJob r.id t⟩]) →
            Store.created r.id (s.through before) between = [] ∧
            ∀ r' ∈ (s.through (before ++ between)).jobs, r'.id = r.id →
              r'.decode.enabled = false) := by
  have hbound := bound_savedBy s turns
  generalize (opening s).play turns = d at hbound
  refine ⟨hbound.store_eq, fun before a after hsplit => ⟨?_, ?_⟩,
    fun before between after _ r hr hsave => ⟨fun honce => ⟨?_, ?_⟩, fun hoff => ?_⟩⟩
  · intro r hr r' hr' hid hoff hon
    rw [Store.through_concat] at hr'
    obtain ⟨v, now, rfl, hname, hv⟩ :=
      ((hs.through before).change hr hr' hid).enabled_of_disabled hoff hon
    obtain ⟨i, o, htake, spec, rfl, hvalid⟩ :=
      hbound.performed ⟨Unit, .saveJob v now⟩ (by simp [hsplit])
    have henabled := (JobSpec.validated_of_validate hvalid).enabled
    exact ⟨i, spec, v, now, htake, hvalid, henabled.symm.trans hv, hname, rfl⟩
  · intro run hrun hnew
    rw [Store.through_concat] at hrun
    have hmem := Store.mem_newRuns.2 ⟨hrun, rfl, hnew⟩
    obtain ⟨r, hr, hid, hon, -⟩ := Access.newRuns_cases (List.ne_nil_of_mem hmem)
    exact ⟨r, hr, hid, hon⟩
  · exact (hs.through before).length_created_le_one hr honce hsave
  · rintro first a rest rfl hnew
    rw [Store.through_concat, Store.through_append] at hnew ⊢
    rw [Store.through_append]
    exact (hs.through before).over_of_newRuns hr honce hsave hnew
  · have hdisabled : r.decode.enabled = false := by
      rcases hoff with hoff | ⟨earlier, t, rfl⟩
      · exact hoff
      · rw [Store.through_concat] at hr
        rcases Store.mem_updateJob hr with ⟨r₀, -, -, hr₀⟩ | ⟨-, hne⟩
        · rw [hr₀]
          rfl
        · exact absurd rfl hne
    refine ⟨(hs.through before).created_of_disabled hr hdisabled hsave, ?_⟩
    rw [Store.through_append]
    exact (hs.through before).enabled_through hr hdisabled hsave

/-- A job is to fire once; it fires, its next fire is set by hand, and it is to fire again. -/
def lifeOfOneFire : List (Turn Bool) :=
  [.take true (.saveJob { JobSpec.interval "report" "true" 3600 with runOnce := true } 0),
    .act true, .act true, .take true (.tick 0), .act true, .act true, .act true,
    .take false (.enqueue "job:0" 3600), .act false, .take true (.setNextRun "job:0" (some 0) 3700),
    .act true, .take false (.enqueue "job:0" 3800), .act false]

/-- The job gets one run; then it gets no other one and stays disabled, although its next fire is
set. -/
theorem disabling_final_after_one_fire :
    (Store.created "job:0" .empty ((opening .empty).play lifeOfOneFire).history).map (·.id) =
      ["run:0"] ∧
    Store.created "job:0"
      (Store.empty.through (((opening .empty).play lifeOfOneFire).history.take 6))
      (((opening .empty).play lifeOfOneFire).history.drop 6) = [] ∧
    ∀ r ∈ ((opening .empty).play lifeOfOneFire).store.jobs, r.id = "job:0" →
      r.decode.enabled = false := by
  have hrows : ∃ r ∈ (Store.empty.through
        (((opening .empty).play lifeOfOneFire).history.take 6)).jobs,
      r.id = "job:0" ∧ r.decode.enabled = false ∧
      ∀ a ∈ ((opening .empty).play lifeOfOneFire).history.drop 6, a.2.saves r.name = false := by
    decide +kernel
  obtain ⟨r, hr, hid, hoff, hsave⟩ := hrows
  obtain ⟨hstore, -, hbetween⟩ := disabling_final Store.identified_empty.jobsNumbered lifeOfOneFire
  have hnone := (hbetween _ _ [] (by rw [List.append_nil, List.take_append_drop]) r hr hsave).2
    (Or.inl hoff)
  rw [List.take_append_drop, ← hstore, hid] at hnone
  exact ⟨by decide +kernel, hnone⟩

end Session

end Timetable
