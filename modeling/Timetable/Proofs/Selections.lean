/-
**Rows are selected as their jobs are read.**

Whether a job fires is said twice.  The queries look at the number in the flag of a row and select
the rows in which it is one; a job that is read from a row is enabled when the number is not zero,
and that is what firing it looks at.  The two agree on all rows that were written as jobs.  A row in
which some other program has put another number is read as an enabled job, and fires when it is told
to, but no query for enabled jobs finds it, and so no pass over the jobs ever comes to it.

Main definitions:

* `JobQuery.passes` — a job passes the filters of a query;
* `Store.SelectsAsRead` — **the queries select what the jobs say that are read from the rows**.

Main results:

* `Store.enqueue_ne_notDue_iff` — what firing a job looks at;
* `Store.mem_dueJobIds_iff_fires` — a job is due that would fire and whose flag is one;
* `Store.selectsAsRead_iff` — **when rows are selected as their jobs are read**.
-/

import Timetable.Proofs.Firing
import Timetable.Proofs.Listing

set_option autoImplicit false
set_option relaxedAutoImplicit false

namespace Timetable

/-! ### Flags -/

/-- A flag is written as zero or one. -/
theorem JobRow.flagged_iff {r : JobRow} : r.Flagged ↔ r.enabled = 0 ∨ r.enabled = 1 := by
  constructor
  · rintro ⟨flag, hflag⟩
    cases flag
    · exact Or.inl hflag
    · exact Or.inr hflag
  · rintro (hzero | hone)
    · exact ⟨false, hzero⟩
    · exact ⟨true, hone⟩

namespace JobRow.Flagged

variable {r : JobRow}

/-- A flag that was written as a flag is read as it is compared. -/
theorem beq_flagNumber (h : r.Flagged) (wanted : Bool) :
    (r.enabled == flagNumber wanted) = (r.decode.enabled == wanted) := by
  obtain ⟨flag, hflag⟩ := h
  have hread : r.decode.enabled = flag := by
    rw [JobRow.decode, hflag, flagSet_flagNumber]
  rw [hread, hflag]
  cases flag <;> cases wanted <;> rfl

theorem beq_one (h : r.Flagged) : (r.enabled == 1) = r.decode.enabled :=
  (h.beq_flagNumber true).trans (beq_true _)

end JobRow.Flagged

/-! ### Queries over jobs -/

/-- **A job passes the filters of a query.** -/
def JobQuery.passes (q : JobQuery) (j : Job) : Bool :=
  q.enabled.all (fun wanted => j.enabled == wanted) &&
    q.terms.all fun term => Text.contains term j.name || Text.contains term j.task

namespace Store

variable {s : Store} {r : JobRow} {id : String} {now : Int}

/-- **Rows are selected as their jobs are read**: a job is among those that are due exactly when
firing it would not be in vain; and what is listed as enabled, as waiting for its next fire, and for
a query that has room for it, are the jobs that are read as enabled or disabled as asked for. -/
structure SelectsAsRead (s : Store) : Prop where
  /-- Jobs are due that would fire. -/
  due : ∀ now id, id ∈ s.dueJobIds now ↔ (s.enqueue id now).1 ≠ .ok .notDue
  /-- The enabled jobs. -/
  enabled : s.enabledJobs.Perm ((s.jobs.map JobRow.decode).filter (·.enabled))
  /-- The enabled jobs that wait for their next fire. -/
  missing : s.jobsWithoutNextRun.Perm
    ((s.jobs.map JobRow.decode).filter fun j => j.enabled && j.nextRunAt.isNone)
  /-- The jobs that a query asks for. -/
  listed : ∀ q : JobQuery, ((s.jobs.map JobRow.decode).filter q.passes).length ≤ q.effectiveLimit →
    (s.listJobs q).Perm ((s.jobs.map JobRow.decode).filter q.passes)

/-! ### Firing and being due -/

/-- **What firing a job looks at**: its row, read as a job. -/
theorem enqueue_ne_notDue_iff (hids : (s.jobs.map (·.id)).Nodup) :
    (s.enqueue id now).1 ≠ .ok .notDue ↔
      ∃ r ∈ s.jobs, r.id = id ∧ r.decode.enabled = true ∧
        ∃ fire ≤ now, r.nextRunAt = some fire := by
  constructor
  · intro hfires
    by_contra hnone
    have hidle : s.Firing id now .notDue s := by
      refine .notDue ?_
      intro r hr hid fire hdue
      exact hnone ⟨r, hr, hid, hdue.1, fire, hdue.2.2, hdue.2.1⟩
    exact hfires (congrArg Prod.fst (hidle.enqueue_eq hids))
  · rintro ⟨r, hr, rfl, henabled, fire, hle, hnext⟩
    rw [enqueue_of_due (jobRow?_of_mem hids hr) ⟨henabled, hnext, hle⟩]
    -- whatever becomes of the fire, the answer is another one
    cases r.decode.takeFire fire with
    | error failure => cases failure <;> simp
    | ok goesOn => by_cases hbusy : 0 < s.countRunning r.id <;> simp [hbusy]

/-- **A job is due that would fire** and whose flag is one. -/
theorem mem_dueJobIds_iff_fires (hids : (s.jobs.map (·.id)).Nodup) :
    id ∈ s.dueJobIds now ↔
      (s.enqueue id now).1 ≠ .ok .notDue ∧ ∀ r ∈ s.jobs, r.id = id → r.enabled = 1 := by
  rw [mem_dueJobIds, enqueue_ne_notDue_iff hids]
  constructor
  · rintro ⟨r, hr, rfl, hone, hfire⟩
    have hread : r.decode.enabled = true := by
      rw [JobRow.decode, hone]
      rfl
    refine ⟨⟨r, hr, rfl, hread, hfire⟩, ?_⟩
    intro y hy hid
    rwa [List.inj_on_of_nodup_map hids hy hr hid]
  · rintro ⟨⟨r, hr, hid, -, hfire⟩, hone⟩
    exact ⟨r, hr, hid, hone r hr hid, hfire⟩

theorem mem_dueJobIds_iff_enqueue (hids : (s.jobs.map (·.id)).Nodup)
    (hflags : ∀ r ∈ s.jobs, r.Flagged) :
    id ∈ s.dueJobIds now ↔ (s.enqueue id now).1 ≠ .ok .notDue := by
  refine (mem_dueJobIds_iff_fires hids).trans (and_iff_left_of_imp ?_)
  intro hfires y hy hid
  obtain ⟨r, hr, hrid, henabled, -⟩ := (enqueue_ne_notDue_iff hids).1 hfires
  obtain rfl := List.inj_on_of_nodup_map hids hy hr (hid.trans hrid.symm)
  rw [← (hflags y hy).beq_one, beq_iff_eq] at henabled
  exact henabled

/-! ### Listings -/

/-- Rows that are selected as their jobs are read give the jobs that are to be selected. -/
theorem map_decode_filter {rows : List JobRow} {p : JobRow → Bool} {test : Job → Bool}
    (h : ∀ r ∈ rows, p r = test r.decode) :
    (rows.filter p).map JobRow.decode = (rows.map JobRow.decode).filter test := by
  rw [List.filter_map]
  exact congrArg _ (List.filter_congr h)

theorem perm_enabledJobs (hflags : ∀ r ∈ s.jobs, r.Flagged) :
    s.enabledJobs.Perm ((s.jobs.map JobRow.decode).filter (·.enabled)) := by
  rw [← map_decode_filter fun r hr => (hflags r hr).beq_one]
  exact (List.mergeSort_perm _ _).map _

theorem jobsWithoutNextRun_eq (hflags : ∀ r ∈ s.jobs, r.Flagged) :
    s.jobsWithoutNextRun =
      (s.jobs.map JobRow.decode).filter fun j => j.enabled && j.nextRunAt.isNone := by
  refine map_decode_filter ?_
  intro r hr
  rw [(hflags r hr).beq_one]
  rfl

theorem perm_listJobs (hflags : ∀ r ∈ s.jobs, r.Flagged) (q : JobQuery)
    (hroom : ((s.jobs.map JobRow.decode).filter q.passes).length ≤ q.effectiveLimit) :
    (s.listJobs q).Perm ((s.jobs.map JobRow.decode).filter q.passes) := by
  have hselect : ∀ r ∈ s.jobs, selects q r = q.passes r.decode := by
    intro r hr
    have henabled : q.enabled.all (fun wanted => r.enabled == flagNumber wanted) =
        q.enabled.all fun wanted => r.decode.enabled == wanted := by
      cases q.enabled with
      | none => rfl
      | some wanted => exact (hflags r hr).beq_flagNumber wanted
    rw [selects, JobQuery.passes, henabled]
    rfl
  have hperm : ((s.orderedRows q).map JobRow.decode).Perm
      ((s.jobs.map JobRow.decode).filter q.passes) := by
    rw [← map_decode_filter hselect]
    exact (List.mergeSort_perm _ _).map _
  rw [listJobs_eq, List.take_of_length_le (hperm.length_eq.trans_le hroom)]
  exact hperm

/-- **Rows are selected as their jobs are read exactly when all flags are zero or one.**  The rows
may hold anything else, as long as no two of them have the same identifier. -/
theorem selectsAsRead_iff (hids : (s.jobs.map (·.id)).Nodup) :
    s.SelectsAsRead ↔ ∀ r ∈ s.jobs, r.enabled = 0 ∨ r.enabled = 1 := by
  constructor
  · intro h r hr
    by_cases hzero : r.enabled = 0
    · exact Or.inl hzero
    · -- the job is read as enabled, so it is listed, and then its number is one
      have hread : r.decode.enabled = true := by simpa [JobRow.decode, flagSet] using hzero
      have hlisted : r.decode ∈ s.enabledJobs :=
        h.enabled.mem_iff.2 (List.mem_filter.2 ⟨List.mem_map_of_mem hr, hread⟩)
      simp only [enabledJobs, List.mem_map, List.mem_mergeSort, List.mem_filter,
        beq_iff_eq] at hlisted
      obtain ⟨y, ⟨hy, hone⟩, hsame⟩ := hlisted
      have hid : y.id = r.id := congrArg Job.id hsame
      exact Or.inr (List.inj_on_of_nodup_map hids hy hr hid ▸ hone)
  · intro h
    have hflags : ∀ r ∈ s.jobs, r.Flagged := fun r hr => JobRow.flagged_iff.2 (h r hr)
    exact ⟨fun now id => mem_dueJobIds_iff_enqueue hids hflags, perm_enabledJobs hflags,
      .of_eq (jobsWithoutNextRun_eq hflags), perm_listJobs hflags⟩

/-- An hourly job whose fire has come, with a number as its flag. -/
def hourlyFlagged (flag : Int) : Store :=
  { jobs :=
      [{ JobRow.ofSpec "job:0" (.interval "report" "true" 3600) 0 with
          enabled := flag, nextRunAt := some 3600 }]
    jobSerial := 1 }

/-- Written as a job, the row is selected as it is read. -/
theorem selectsAsRead_hourlyFlagged :
    ((hourlyFlagged 1).jobs.map (·.id)).Nodup ∧ (hourlyFlagged 1).SelectsAsRead ∧
      (hourlyFlagged 1).dueJobIds 3600 = ["job:0"] := by
  have hids : ((hourlyFlagged 1).jobs.map (·.id)).Nodup := by decide
  exact ⟨hids, (selectsAsRead_iff hids).2 (by decide), by decide +kernel⟩

/-- **Rows are not always selected as their jobs are read**: a flag of two is read as set and
selected by no query for enabled jobs. -/
theorem not_always_selectsAsRead :
    ¬ ∀ s : Store, (s.jobs.map (·.id)).Nodup → s.SelectsAsRead := by
  intro h
  have hselects := h (hourlyFlagged 2) (by decide)
  have hfires : ((hourlyFlagged 2).enqueue "job:0" 3600).1 ≠ .ok .notDue := by decide +kernel
  have hnone : "job:0" ∉ (hourlyFlagged 2).dueJobIds 3600 := by decide +kernel
  exact hnone ((hselects.due 3600 "job:0").2 hfires)

end Store

end Timetable
