/-
**Saving a job.**

To people a job is its name.  A specification that passes the check is saved under its name: the job
with the name gets the new definition and stays the same job, and where there is none a job is made.
Nothing of an older definition is left behind, nothing else changes, and a specification that does
not pass leaves the tables as they were.  The proofs look at the table around the one row that has
the name, before and after.

Main definitions:

* `Store.Saved` — **a job is on record under its name**, and nothing else has changed.

Main results:

* `Store.exists_split_saveJob` — what saving does to the table of jobs;
* `Store.saved_saveJob` — it puts the job on record;
* `Store.saveJob_saveJob_self`, `Store.definitions_saveJob_saveJob` — saving again, and saving over;
* `Management.saveJob_under_name` — **what saving a specification does**.
-/

import Timetable.Proofs.InterruptedPass
import Timetable.Proofs.Integrity

set_option autoImplicit false
set_option relaxedAutoImplicit false

namespace Timetable

open Program

/-! ### Rows -/

namespace JobRow

/-- A definition that was put on a row is not put there twice. -/
theorem redefine_redefine_self (r : JobRow) (v : JobSpec) (now : Int) :
    (r.redefine v now).redefine v now = r.redefine v now := by
  simp only [redefine, max_assoc, max_self]

theorem redefine_ofSpec_self (id : String) (v : JobSpec) (now : Int) :
    (ofSpec id v now).redefine v now = ofSpec id v now := by
  simp only [redefine, ofSpec, max_self]

end JobRow

namespace Store

variable {s s' : Store} {v v₀ : JobSpec} {now t : Int} {r : JobRow} {before after : List JobRow}

/-! ### The row with a name -/

/-- **A job is on record under its name**: it has the definition and no next fire, and it is the job
that had the name before, or else a new one; and nothing else has changed. -/
structure Saved (s s' : Store) (v : JobSpec) (now : Int) (r : JobRow) : Prop where
  /-- The row is the only one with the name. -/
  alone : s'.jobs.filter (·.name == v.name) = [r]
  /-- The row holds the definition. -/
  definition : r.definition = v
  /-- Its flags are written as flags. -/
  flags : r.enabled = flagNumber v.enabled ∧ r.runOnce = flagNumber v.runOnce
  /-- The next fire has yet to be computed. -/
  nextRunAt : r.nextRunAt = none
  /-- A job that had the name is still that job. -/
  kept : ∀ old ∈ s.jobs, old.name = v.name → r.id = old.id ∧ r.createdAt = old.createdAt ∧
    r.lastRunAt = old.lastRunAt ∧ r.updatedAt = max old.updatedAt now
  /-- Where no job had the name, the job is new, with an identifier of its own if the next one has
  not been given out. -/
  made : (∀ old ∈ s.jobs, old.name ≠ v.name) →
    (jobIdOfSerial s.jobSerial ∉ s.jobs.map (·.id) → ∀ old ∈ s.jobs, r.id ≠ old.id) ∧
      r.lastRunAt = none ∧ r.createdAt = now ∧ r.updatedAt = now
  /-- All other jobs are as they were. -/
  others : s'.jobs.filter (·.name != v.name) = s.jobs.filter (·.name != v.name)
  /-- All runs are as they were. -/
  runs : s'.runs = s.runs

/-- The row with a name, among rows with other names. -/
theorem filter_name_of_split (hr : r.name = v.name)
    (hrest : ∀ y ∈ before ++ after, y.name ≠ v.name) :
    (before ++ r :: after).filter (·.name == v.name) = [r] ∧
      (before ++ r :: after).filter (·.name != v.name) = before ++ after := by
  have hbefore : ∀ y ∈ before, y.name ≠ v.name := fun y hy => hrest y (List.mem_append_left _ hy)
  have hafter : ∀ y ∈ after, y.name ≠ v.name := fun y hy => hrest y (List.mem_append_right _ hy)
  constructor
  · rw [List.filter_append, List.filter_cons_of_pos (by simp [hr]),
      List.filter_eq_nil_iff.2 (by simpa using hbefore),
      List.filter_eq_nil_iff.2 (by simpa using hafter)]
    rfl
  · rw [List.filter_append, List.filter_cons_of_neg (by simp [hr]),
      List.filter_eq_self.2 (by simpa using hbefore), List.filter_eq_self.2 (by simpa using hafter)]

theorem saveJob_of_split (hjobs : s.jobs = before ++ r :: after) (hr : r.name = v.name)
    (hrest : ∀ y ∈ before ++ after, y.name ≠ v.name) :
    s.saveJob v now = { s with jobs := before ++ r.redefine v now :: after } := by
  have hkept (rows : List JobRow) (h : ∀ y ∈ rows, y.name ≠ v.name) :
      (rows.map fun y => if y.name == v.name then y.redefine v now else y) = rows :=
    (List.map_congr_left fun y hy => by simp [h y hy]).trans (List.map_id rows)
  have hany : s.jobs.any (·.name == v.name) = true := by simp [hjobs, hr]
  rw [saveJob, if_pos hany, hjobs, List.map_append, List.map_cons,
    hkept before fun y hy => hrest y (List.mem_append_left _ hy),
    hkept after fun y hy => hrest y (List.mem_append_right _ hy)]
  simp [hr]

theorem saveJob_of_absent (h : ∀ y ∈ s.jobs, y.name ≠ v.name) :
    s.saveJob v now =
      { s with
        jobs := s.jobs ++ [JobRow.ofSpec (jobIdOfSerial s.jobSerial) v now]
        jobSerial := s.jobSerial + 1 } := by
  have hany : ¬ s.jobs.any (·.name == v.name) = true := by simpa using h
  rw [saveJob, if_neg hany]

/-- **What saving does to the table**: the row with the name is redefined, and all rows around it
stay; or a row is added behind those that are there. -/
theorem exists_split_saveJob (hnames : (s.jobs.map (·.name)).Nodup) (v : JobSpec) (now : Int) :
    ∃ before after, (∀ y ∈ before ++ after, y.name ≠ v.name) ∧
      ((∃ old, old.name = v.name ∧ s.jobs = before ++ old :: after ∧
          s.saveJob v now = { s with jobs := before ++ old.redefine v now :: after }) ∨
        s.jobs = before ∧ after = [] ∧
          s.saveJob v now =
            { s with
              jobs := before ++ [JobRow.ofSpec (jobIdOfSerial s.jobSerial) v now]
              jobSerial := s.jobSerial + 1 }) := by
  by_cases hold : ∃ old ∈ s.jobs, old.name = v.name
  · obtain ⟨old, hmem, hname⟩ := hold
    obtain ⟨before, after, hjobs⟩ := List.append_of_mem hmem
    rw [hjobs, List.map_append, List.map_cons, List.nodup_middle, List.nodup_cons,
      ← List.map_append] at hnames
    have hrest : ∀ y ∈ before ++ after, y.name ≠ v.name := fun y hy heq =>
      hnames.1 (hname.trans heq.symm ▸ List.mem_map_of_mem hy)
    exact ⟨before, after, hrest, Or.inl ⟨old, hname, hjobs, saveJob_of_split hjobs hname hrest⟩⟩
  · have habsent : ∀ y ∈ s.jobs, y.name ≠ v.name := fun y hy heq => hold ⟨y, hy, heq⟩
    exact ⟨s.jobs, [], by simpa using habsent, Or.inr ⟨rfl, rfl, saveJob_of_absent habsent⟩⟩

/-! ### What is on record -/

/-- **Saving puts the job on record.** -/
theorem saved_saveJob (hnames : (s.jobs.map (·.name)).Nodup) (hv : v.Checked) (now : Int) :
    ∃ r, s.Saved (s.saveJob v now) v now r := by
  obtain ⟨before, after, hrest, ⟨old, hname, hjobs, hsaved⟩ | ⟨rfl, rfl, hsaved⟩⟩ :=
    exists_split_saveJob hnames v now
  · have hold := filter_name_of_split hname hrest
    have hnew := filter_name_of_split (r := old.redefine v now) hname hrest
    refine ⟨old.redefine v now, ?_⟩
    rw [hsaved]
    refine ⟨hnew.1, JobRow.definition_redefine hv hname.symm now, ⟨rfl, rfl⟩, rfl,
      fun y hy hyname => ?_, fun habsent => absurd hname (habsent old (by simp [hjobs])), ?_, rfl⟩
    · have hmem : y ∈ s.jobs.filter (·.name == v.name) := List.mem_filter.2 ⟨hy, by simp [hyname]⟩
      rw [hjobs, hold.1, List.mem_singleton] at hmem
      rw [hmem]
      exact ⟨rfl, rfl, rfl, rfl⟩
    · rw [hjobs, hold.2]
      exact hnew.2
  · have hname : (JobRow.ofSpec (jobIdOfSerial s.jobSerial) v now).name = v.name := rfl
    have hnew := filter_name_of_split hname hrest
    rw [List.append_nil] at hrest hnew
    refine ⟨JobRow.ofSpec (jobIdOfSerial s.jobSerial) v now, ?_⟩
    rw [hsaved]
    refine ⟨hnew.1, JobRow.definition_ofSpec hv _ now, ⟨rfl, rfl⟩, rfl,
      fun y hy hyname => absurd hyname (hrest y hy),
      fun _ => ⟨fun hfresh y hy heq => hfresh ?_, rfl, rfl, rfl⟩, ?_, rfl⟩
    · have hid : jobIdOfSerial s.jobSerial = y.id := heq
      exact hid ▸ List.mem_map_of_mem hy
    · rw [hnew.2, List.filter_eq_self.2 (by simpa using hrest)]

/-- The job that is on record is found under its name. -/
theorem Saved.jobNamed? (h : s.Saved s' v now r) : s'.jobNamed? v.name = some r.decode := by
  rw [Store.jobNamed?, jobRowNamed?, ← List.head?_filter, h.alone]
  rfl

/-- Whatever the tables are, a job that was saved is found under its name. -/
theorem exists_jobNamed?_saveJob (s : Store) (v : JobSpec) (now : Int) :
    ∃ j, (s.saveJob v now).jobNamed? v.name = some j := by
  have hmem : ∃ r ∈ (s.saveJob v now).jobs, r.name = v.name := by
    unfold saveJob
    split
    · rename_i hany
      obtain ⟨r, hr, hname⟩ := List.any_eq_true.1 hany
      exact ⟨r.redefine v now, List.mem_map.2 ⟨r, hr, if_pos hname⟩, beq_iff_eq.1 hname⟩
    · exact ⟨_, List.mem_append_right _ (List.mem_singleton_self _), rfl⟩
  have hfound : ((s.saveJob v now).jobRowNamed? v.name).isSome = true :=
    List.find?_isSome.2 (by simpa using hmem)
  obtain ⟨r, hr⟩ := Option.isSome_iff_exists.1 hfound
  exact ⟨r.decode, by rw [jobNamed?, hr, Option.map_some]⟩

/-- **Saving again changes nothing.** -/
theorem saveJob_saveJob_self (hnames : (s.jobs.map (·.name)).Nodup) (v : JobSpec) (now : Int) :
    (s.saveJob v now).saveJob v now = s.saveJob v now := by
  obtain ⟨before, after, hrest, ⟨old, hname, -, hsaved⟩ | ⟨rfl, rfl, hsaved⟩⟩ :=
    exists_split_saveJob hnames v now
  · have hredefined : (old.redefine v now).name = v.name := hname
    rw [hsaved, saveJob_of_split rfl hredefined hrest, JobRow.redefine_redefine_self]
  · have hnew : (JobRow.ofSpec (jobIdOfSerial s.jobSerial) v now).name = v.name := rfl
    rw [hsaved, saveJob_of_split rfl hnew hrest, JobRow.redefine_ofSpec_self]

/-- **Nothing is left of a definition that is saved over.** -/
theorem definitions_saveJob_saveJob (hnames : (s.jobs.map (·.name)).Nodup) (hv : v.Checked)
    (hname : v₀.name = v.name) (t now : Int) :
    ((s.saveJob v₀ t).saveJob v now).jobs.map JobRow.definition =
      (s.saveJob v now).jobs.map JobRow.definition := by
  obtain ⟨before, after, hrest, ⟨old, hold, hjobs, hsaved⟩ | ⟨rfl, rfl, hsaved⟩⟩ :=
    exists_split_saveJob hnames v₀ t
  · rw [hname] at hrest hold
    have hredefined : (old.redefine v₀ t).name = v.name := hold
    rw [hsaved, saveJob_of_split rfl hredefined hrest, saveJob_of_split hjobs hold hrest]
    simp only [List.map_append, List.map_cons, JobRow.definition_redefine hv hold.symm,
      JobRow.definition_redefine hv hredefined.symm]
  · rw [hname] at hrest
    have hnew : (JobRow.ofSpec (jobIdOfSerial s.jobSerial) v₀ t).name = v.name := hname
    rw [hsaved, saveJob_of_split rfl hnew hrest,
      saveJob_of_absent fun y hy => hrest y (by simp [hy])]
    simp only [List.map_append, List.map_cons, List.map_nil,
      JobRow.definition_redefine hv hnew.symm, JobRow.definition_ofSpec hv]

end Store

/-! ### Saving a specification -/

namespace Management

variable {s : Store} {spec v : JobSpec} {now : Int} {j : Job}

/-- A statement that succeeds is performed. -/
theorem runStore_statement {α : Type} {st : Statement α} {s' : Store} {a : α}
    (h : st.run s = (.ok a, s')) : (statement st).runStore s = (.ok a, s') := by
  simp [statement, require, Program.runStore, Program.run, h, Except.mapError]

/-- A specification that is refused is not saved. -/
theorem runStore_saveJob_of_error {e : SpecError} (h : spec.validate = .error e) :
    (saveJob spec now).runStore s = (.error (.spec e), s) := by
  rw [saveJob, h]
  rfl

/-- What passes the check is saved, and the answer is the job under its name. -/
theorem runStore_saveJob_of_ok (h : spec.validate = .ok v)
    (hj : (s.saveJob v now).jobNamed? v.name = some j) :
    (saveJob spec now).runStore s = (.ok j, s.saveJob v now) := by
  have hread :
      Statement.run (.jobNamed v.name) (s.saveJob v now) = (.ok (some j), s.saveJob v now) := by
    rw [Statement.run, hj]
  rw [saveJob, h, runStore_andThen_ok (runStore_statement rfl),
    runStore_andThen_ok (runStore_statement hread)]
  rfl

/-- **What saving a specification does.**  On tables on which no two jobs have the same name, it
fails exactly when the specification does not pass its check, with what was found wrong, and nothing
changes.  Otherwise the job is on record under the name, and it is the answer.  Saving the
specification again at the same time changes nothing, and saving it over another one of that name
leaves the definitions that saving it alone leaves. -/
theorem saveJob_under_name (hnames : (s.jobs.map (·.name)).Nodup) (spec : JobSpec) (now : Int) :
    ((∃ fault, ((saveJob spec now).runStore s).1 = .error fault) ↔ ∃ e, spec.validate = .error e) ∧
    (∀ e, spec.validate = .error e → (saveJob spec now).runStore s = (.error (.spec e), s)) ∧
    ∀ v, spec.validate = .ok v → ∃ r s', (saveJob spec now).runStore s = (.ok r.decode, s') ∧
      s.Saved s' v now r ∧
      (saveJob spec now).runStore s' = (.ok r.decode, s') ∧
      ∀ spec₀ v₀ t, spec₀.validate = .ok v₀ → v₀.name = v.name →
        ((saveJob spec now).runStore ((saveJob spec₀ t).runStore s).2).2.jobs.map
            JobRow.definition =
          s'.jobs.map JobRow.definition := by
  refine ⟨?_, fun e he => runStore_saveJob_of_error he, fun v hv => ?_⟩
  · cases hv : spec.validate with
    | error e => simp [runStore_saveJob_of_error hv]
    | ok v =>
      obtain ⟨j, hj⟩ := s.exists_jobNamed?_saveJob v now
      simp [runStore_saveJob_of_ok hv hj]
  · have hchecked : v.Checked := JobSpec.checked_of_validate hv
    obtain ⟨r, hsaved⟩ := Store.saved_saveJob hnames hchecked now
    refine ⟨r, s.saveJob v now, runStore_saveJob_of_ok hv hsaved.jobNamed?, hsaved, ?_,
      fun spec₀ v₀ t hv₀ hname => ?_⟩
    · have hagain := Store.saveJob_saveJob_self hnames v now
      rw [runStore_saveJob_of_ok hv (by rw [hagain, hsaved.jobNamed?]), hagain]
    · obtain ⟨j₀, hj₀⟩ := s.exists_jobNamed?_saveJob v₀ t
      obtain ⟨j, hj⟩ := (s.saveJob v₀ t).exists_jobNamed?_saveJob v now
      rw [runStore_saveJob_of_ok hv₀ hj₀, runStore_saveJob_of_ok hv hj]
      exact Store.definitions_saveJob_saveJob hnames hchecked hname t now

/-- Two hourly jobs. -/
def mailAndReport : Store :=
  Store.empty.performAll
    [.saveJob (.interval "mail" "true" 3600) 100, .saveJob (.interval "report" "true" 3600) 100]

/-- The second of the two jobs gets another schedule, under a clock that was set back: it is still
the second one, and neither of its times goes back. -/
theorem saveJob_under_name_taken :
    (mailAndReport.jobs.map (·.name)).Nodup ∧
      ∃ r s', (saveJob (.cron " report " "true" "0  * * * *") 50).runStore mailAndReport =
          (.ok r.decode, s') ∧
        mailAndReport.Saved s'
          { JobSpec.cron "report" "true" "0  * * * *" with overlapPolicy := some "forbid" } 50 r ∧
        r.id = "job:1" ∧ r.createdAt = 100 ∧ r.updatedAt = 100 := by
  have hnames : (mailAndReport.jobs.map (·.name)).Nodup := by decide +kernel
  have hv : (JobSpec.cron " report " "true" "0  * * * *").validate =
      .ok { JobSpec.cron "report" "true" "0  * * * *" with overlapPolicy := some "forbid" } := by
    decide +kernel
  have hold : ∃ old ∈ mailAndReport.jobs, old.name = "report" ∧ old.id = "job:1" ∧
      old.createdAt = 100 ∧ max old.updatedAt 50 = 100 := by decide +kernel
  obtain ⟨-, -, hsaves⟩ := saveJob_under_name hnames (.cron " report " "true" "0  * * * *") 50
  obtain ⟨r, s', hrun, hsaved, -⟩ := hsaves _ hv
  obtain ⟨old, hmem, hname, hid, hcreated, hupdated⟩ := hold
  obtain ⟨hid', hcreated', -, hupdated'⟩ := hsaved.kept old hmem hname
  exact ⟨hnames, r, s', hrun, hsaved, hid'.trans hid, hcreated'.trans hcreated,
    hupdated'.trans hupdated⟩

end Management

end Timetable
