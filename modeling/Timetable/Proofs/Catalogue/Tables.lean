/-
**Tables as a catalogue.**

The tables stand for a catalogue of jobs: the job under a name is that of the row with the name.  A
catalogue can be read off them, and nothing is lost in this, as long as the tables are regular:
names and identifiers are told apart, flags are zero or one, and every row of a run is a run.  This
is what the tables never lose.  On regular tables, looking up and listing answer what the catalogue
says, and saving, changing and deleting a row are what they are to be for the catalogue.

Main definitions:

* `Store.Regular` — what the tables never lose;
* `Store.catalogue` — **the catalogue that the tables stand for**;
* `Store.Represents` — the tables hold a catalogue, and nothing else.

Main results:

* `Store.Regular.run`, `Store.regular_performAll` — every statement keeps the tables regular;
* `Store.Regular.represents` — **regular tables hold their catalogue**;
* `Store.Regular.resolve?_eq_some_iff` — looking a job up finds the job that is meant;
* `Store.Regular.listJobs_selected`, `Store.Regular.exists_listRuns` — what is listed;
* `Store.Regular.catalogue_updateJob`, `Store.Regular.catalogue_deleteJob`,
  `Store.catalogue_saveJob_of_absent` — what becomes of the catalogue.
-/

import Timetable.Proofs.Catalogue.Basic
import Timetable.Proofs.Integrity
import Timetable.Proofs.Pass.Loops

set_option autoImplicit false
set_option relaxedAutoImplicit false

namespace Timetable

/-! ### Regular tables -/

/-- A flag that was written as a flag. -/
def JobRow.Flagged (r : JobRow) : Prop := ∃ b : Bool, r.enabled = flagNumber b

/-- A row that was written as a run. -/
def RunRow.Readable (r : RunRow) : Prop :=
  ∃ run : Run, r = .ofRun run ∧ run.attempt ≤ Text.uint32Max

/-- The run of a row that is one. -/
def RunRow.run? (r : RunRow) : Option Run := r.decode.toOption

theorem RunRow.readable_iff {r : RunRow} : r.Readable ↔ ∃ run, r.decode = .ok run := by
  constructor
  · rintro ⟨run, rfl, hattempt⟩
    exact ⟨run, decode_ofRun hattempt⟩
  · rintro ⟨run, h⟩
    exact ⟨run, eq_ofRun_of_decode h, attempt_le_of_decode h⟩

theorem RunRow.run?_ofRun {run : Run} (h : run.attempt ≤ Text.uint32Max) :
    (ofRun run).run? = some run := by
  rw [run?, decode_ofRun h]
  rfl

theorem JobRow.Change.flagged {a : Access} {r r' : JobRow} (h : r.Change a r') (hr : r.Flagged) :
    r'.Flagged := by
  cases h with
  | stay => exact hr
  | save _ spec => exact ⟨spec.enabled, rfl⟩
  | reschedule => exact hr
  | @fire _ _ _ after => exact ⟨after.1, rfl⟩
  | _ => exact ⟨false, rfl⟩

namespace RunRow.Readable

variable {r : RunRow}

theorem started (h : r.Readable) (now : Int) : (r.started now).Readable := by
  obtain ⟨run, rfl, hattempt⟩ := h
  exact ⟨run.claimed now, rfl, hattempt⟩

theorem ended (h : r.Readable) (status : RunStatus) (error summary : Option String) (now : Int) :
    (r.ended status error summary now).Readable := by
  obtain ⟨run, rfl, hattempt⟩ := h
  exact ⟨{ run with status, error, resultSummary := summary, finishedAt := some now }, rfl,
    hattempt⟩

end RunRow.Readable

namespace Store

/-- **What the tables never lose.** -/
structure Regular (s : Store) : Prop extends s.Intact where
  /-- Flags are zero or one. -/
  flagged : ∀ r ∈ s.jobs, r.Flagged
  /-- Every row of a run is a run. -/
  readable : ∀ r ∈ s.runs, r.Readable

theorem regular_empty : empty.Regular where
  toIntact := intact_empty
  flagged _ h := nomatch h
  readable _ h := nomatch h

variable {s : Store} {r : JobRow} {name id target : String} {j : Job} {now : Int}

namespace Regular

/-- **Every statement keeps the tables regular** that saves definitions in normal form. -/
theorem run (h : s.Regular) {α : Type} {st : Statement α} (hst : st.SavesNormal) :
    (st.run s).2.Regular where
  toIntact := h.toIntact.apply (a := ⟨α, st⟩) hst
  flagged r' hr' := by
    rcases Access.mem_jobs (a := ⟨α, st⟩) h.jobs_nodup hr' with
        ⟨r, hr, hchange⟩ | ⟨spec, now, -, -, rfl⟩
    · exact hchange.flagged (h.flagged r hr)
    · exact ⟨spec.enabled, rfl⟩
  readable r' hr' := by
    cases Statement.yields_of_mem_runs hr' with
    | kept old => exact h.readable _ old
    | taken old => exact (h.readable _ old).started _
    | finished old => exact (h.readable _ old).ended _ _ _ _
    | failed old => exact (h.readable _ old).ended _ _ _ _
    | fired busy => exact ⟨_, rfl, by cases busy <;> exact (by decide : 1 ≤ Text.uint32Max)⟩

theorem through (h : s.Regular) {history : List Access}
    (hhistory : ∀ a ∈ history, a.2.SavesNormal) :
    (s.through history).Regular := by
  induction history generalizing s with
  | nil => exact h
  | cons a history ih =>
    exact ih (Regular.run h (hhistory a List.mem_cons_self)) fun b hb =>
      hhistory b (List.mem_cons_of_mem a hb)

theorem runStore (h : s.Regular) {α : Type} {p : Program α}
    (hp : p.Only fun _ st => st.SavesNormal) : (p.runStore s).2.Regular :=
  hp.keeps (fun _ _ _ hst hs => Regular.run hs hst) h

end Regular

/-- **The catalogue that the tables stand for.** -/
def catalogue (s : Store) : Catalogue where
  entry := s.jobNamed?
  runs id := (s.runs.filter (·.jobId == id)).filterMap RunRow.run?

/-- The job that is found for an identifier or a name. -/
def resolve? (s : Store) (target : String) : Option Job :=
  (s.jobWithId? target).or (s.jobNamed? target)

namespace Regular

theorem entry_eq_some_iff (h : s.Regular) :
    s.catalogue.entry name = some j ↔ ∃ r ∈ s.jobs, r.name = name ∧ r.decode = j := by
  simp only [catalogue, jobNamed?, jobRowNamed?, Option.map_eq_some_iff,
    find?_key_eq_some_iff h.names_nodup, and_assoc]

theorem jobWithId?_eq_some_iff (h : s.Regular) :
    s.jobWithId? id = some j ↔ ∃ r ∈ s.jobs, r.id = id ∧ r.decode = j := by
  simp only [jobWithId?, jobRow?, Option.map_eq_some_iff, find?_key_eq_some_iff h.jobs_nodup,
    and_assoc]

theorem holds_iff (h : s.Regular) : s.catalogue.Holds j ↔ ∃ r ∈ s.jobs, r.decode = j := by
  rw [Catalogue.Holds, h.entry_eq_some_iff]
  refine exists_congr fun r => and_congr_right fun _ => and_iff_right_of_imp ?_
  rintro rfl
  rfl

/-- A job that is held is found by its identifier. -/
theorem jobWithId?_eq_some_iff_holds (h : s.Regular) :
    s.jobWithId? id = some j ↔ s.catalogue.Holds j ∧ j.id = id := by
  rw [h.jobWithId?_eq_some_iff, h.holds_iff]
  constructor
  · rintro ⟨r, hr, rfl, rfl⟩
    exact ⟨⟨r, hr, rfl⟩, rfl⟩
  · rintro ⟨⟨r, hr, rfl⟩, rfl⟩
    exact ⟨r, hr, rfl, rfl⟩

/-- **Looking a job up finds the job that is meant.** -/
theorem resolve?_eq_some_iff (h : s.Regular) :
    s.resolve? target = some j ↔ s.catalogue.Resolves target j := by
  rw [Catalogue.Resolves, ← h.jobWithId?_eq_some_iff_holds]
  cases hfound : s.jobWithId? target with
  | some k =>
    have hk := h.jobWithId?_eq_some_iff_holds.1 hfound
    have hname : ¬ ∀ k, s.catalogue.Holds k → k.id ≠ target := fun hnobody => hnobody k hk.1 hk.2
    simp [resolve?, hfound, hname]
  | none =>
    have hnobody (k : Job) (hk : s.catalogue.Holds k) : k.id ≠ target := fun hid =>
      Option.some_ne_none k ((h.jobWithId?_eq_some_iff_holds.2 ⟨hk, hid⟩).symm.trans hfound)
    simp only [resolve?, hfound, Option.none_or, reduceCtorEq, false_or]
    exact (and_iff_right hnobody).symm

theorem resolve?_eq_none_iff (h : s.Regular) :
    s.resolve? target = none ↔ ∀ j, ¬ s.catalogue.Resolves target j := by
  simp only [Option.eq_none_iff_forall_ne_some, ne_eq, h.resolve?_eq_some_iff]

/-- The job that is meant has a row. -/
theorem exists_row (h : s.Regular) (hj : s.catalogue.Resolves target j) :
    ∃ r ∈ s.jobs, r.decode = j := by
  rcases hj with ⟨hj, -⟩ | ⟨-, hj⟩
  · exact h.holds_iff.1 hj
  · obtain ⟨r, hr, -, hrj⟩ := h.entry_eq_some_iff.1 hj
    exact ⟨r, hr, hrj⟩

end Regular

/-! ### Listing jobs and runs -/

/-- The rows that a query selects, in its order. -/
def orderedRows (s : Store) (q : JobQuery) : List JobRow :=
  (s.jobs.filter (selects q)).mergeSort fun a b => (compareJobs q.order a b).isLE

theorem listJobs_eq (s : Store) (q : JobQuery) :
    s.listJobs q = ((s.orderedRows q).map JobRow.decode).take q.effectiveLimit :=
  List.map_take

theorem mem_orderedRows {q : JobQuery} : r ∈ s.orderedRows q ↔ r ∈ s.jobs ∧ selects q r = true := by
  rw [orderedRows, List.mem_mergeSort, List.mem_filter]

/-- The rows of the runs of a job, the latest fire first. -/
def orderedRuns (s : Store) (jobId : String) : List RunRow :=
  (s.runs.filter (·.jobId == jobId)).mergeSort laterRun

/-- As many of them are read as the limit lets through. -/
theorem listRuns_eq (s : Store) (jobId : String) (limit : Nat) : s.listRuns jobId limit =
    ((s.orderedRuns jobId).take ((rowLimit limit).getD (s.orderedRuns jobId).length)).mapM
      RunRow.decode := by
  unfold listRuns
  cases rowLimit limit with
  | none => rw [Option.getD_none, List.take_length, orderedRuns]
  | some n => rw [Option.getD_some, orderedRuns]

theorem perm_orderedRuns (s : Store) (jobId : String) :
    (s.orderedRuns jobId).Perm (s.runs.filter (·.jobId == jobId)) :=
  List.mergeSort_perm _ laterRun

/-- Rows that are runs are read. -/
theorem mapM_decode {rows : List RunRow} (hrows : ∀ r ∈ rows, r.Readable) :
    rows.mapM RunRow.decode = .ok (rows.filterMap RunRow.run?) := by
  induction rows with
  | nil => rfl
  | cons r rows ih =>
    obtain ⟨run, rfl, hattempt⟩ := hrows r List.mem_cons_self
    rw [List.mapM_cons, RunRow.decode_ofRun hattempt,
      ih fun r hr => hrows r (List.mem_cons_of_mem _ hr),
      List.filterMap_cons_some (RunRow.run?_ofRun hattempt)]
    rfl

/-- Nothing is lost when rows that are runs are read. -/
theorem map_ofRun_filterMap_run? {rows : List RunRow} (hrows : ∀ r ∈ rows, r.Readable) :
    (rows.filterMap RunRow.run?).map RunRow.ofRun = rows := by
  induction rows with
  | nil => rfl
  | cons r rows ih =>
    obtain ⟨run, rfl, hattempt⟩ := hrows r List.mem_cons_self
    rw [List.filterMap_cons_some (RunRow.run?_ofRun hattempt), List.map_cons,
      ih fun r hr => hrows r (List.mem_cons_of_mem _ hr)]

namespace Regular

/-- The runs of the catalogue are the rows of the table. -/
theorem map_ofRun_runs (h : s.Regular) (id : String) :
    (s.catalogue.runs id).map RunRow.ofRun = s.runs.filter (·.jobId == id) :=
  map_ofRun_filterMap_run? fun r hr => h.readable r (List.mem_of_mem_filter hr)

/-- **The runs of a job are listed**, and with room enough all of them. -/
theorem exists_listRuns (h : s.Regular) (id : String) (limit : Nat) :
    ∃ runs, s.listRuns id limit = .ok runs ∧ runs.Subperm (s.catalogue.runs id) ∧
      ((s.catalogue.runs id).length ≤ limit → runs.Perm (s.catalogue.runs id)) := by
  have hlength : (s.catalogue.runs id).length = (s.orderedRuns id).length := by
    rw [(s.perm_orderedRuns id).length_eq, ← h.map_ofRun_runs id, List.length_map]
  have hperm := s.perm_orderedRuns id
  rw [listRuns_eq]
  refine ⟨_, mapM_decode fun r hr => h.readable r ?_, ?_, fun hroom => ?_⟩
  · exact List.mem_of_mem_filter (hperm.subset (List.mem_of_mem_take hr))
  · exact ((List.take_sublist _ _).filterMap _).subperm.trans (hperm.filterMap _).subperm
  · rw [List.take_of_length_le]
    · exact hperm.filterMap _
    · cases hlimit : rowLimit limit with
      | none => exact Nat.le_refl _
      | some n =>
        obtain ⟨-, rfl⟩ : _ ∧ limit = n := by simpa [rowLimit] using hlimit
        exact hlength ▸ hroom

/-- The jobs that a request is for are those whose rows pass the flag of the query. -/
theorem mem_selected_iff (h : s.Regular) {request : ListRequest} :
    j ∈ s.catalogue.selected request ↔ ∃ r ∈ s.jobs,
      request.query?.enabled.all (fun wanted => r.enabled == flagNumber wanted) = true ∧
        r.decode = j := by
  have hflag {r : JobRow} (hr : r ∈ s.jobs) :
      (request.enabled = true → r.decode.enabled = true) ∧
          (request.enabled = false → request.disabled = true → r.decode.enabled = false) ↔
        request.query?.enabled.all (fun wanted => r.enabled == flagNumber wanted) = true := by
    obtain ⟨b, hb⟩ := h.flagged r hr
    cases henabled : request.enabled <;> cases hdisabled : request.disabled <;> cases b <;>
      simp [ListRequest.query?, JobRow.decode, henabled, hdisabled, hb, flagNumber, flagSet]
  simp only [Catalogue.selected, Set.mem_ofPred_eq, h.holds_iff]
  constructor
  · rintro ⟨⟨r, hr, rfl⟩, hselected⟩
    exact ⟨r, hr, (hflag hr).1 hselected, rfl⟩
  · rintro ⟨r, hr, hselected, rfl⟩
    exact ⟨⟨r, hr, rfl⟩, (hflag hr).2 hselected⟩

theorem nodup_ids_orderedRows (h : s.Regular) (q : JobQuery) :
    (((s.orderedRows q).map JobRow.decode).map Job.id).Nodup := by
  rw [List.map_map]
  exact ((List.mergeSort_perm _ _).map _).nodup_iff.2
    ((List.filter_sublist.map _).nodup h.jobs_nodup)

/-- **The jobs that a request is for are listed**, each once, and with room enough all of them. -/
theorem listJobs_selected (h : s.Regular) (request : ListRequest) :
    (∀ j ∈ s.listJobs request.query?, j ∈ s.catalogue.selected request) ∧
      (s.listJobs request.query?).Nodup ∧
      (request.query = none → (s.catalogue.selected request).encard ≤ request.limit →
        request.limit ≤ 200 →
          ∀ j ∈ s.catalogue.selected request, j ∈ s.listJobs request.query?) := by
  have hnodup := (h.nodup_ids_orderedRows request.query?).of_map
  rw [listJobs_eq]
  refine ⟨fun j hj => ?_, (List.take_sublist _ _).nodup hnodup, fun hquery hroom hmax j hj => ?_⟩
  · obtain ⟨r, hr, rfl⟩ := List.mem_map.1 (List.mem_of_mem_take hj)
    obtain ⟨hr, hselects⟩ := mem_orderedRows.1 hr
    exact h.mem_selected_iff.2 ⟨r, hr, (Bool.and_eq_true_iff.1 hselects).1, rfl⟩
  · -- without a search the rows that are selected are those of the jobs that the request is for
    have hselected (j : Job) : j ∈ s.catalogue.selected request ↔
        j ∈ (s.orderedRows request.query?).map JobRow.decode := by
      have hterms : request.query?.terms = [] := by
        rw [JobQuery.terms, show request.query?.text = none from hquery]
        rfl
      simp only [h.mem_selected_iff, List.mem_map, mem_orderedRows, selects, hterms, List.all_nil,
        Bool.and_true, and_assoc]
    have hlength : ((s.orderedRows request.query?).map JobRow.decode).length ≤ request.limit := by
      have hset : s.catalogue.selected request =
          (((s.orderedRows request.query?).map JobRow.decode).toFinset : Set Job) := by
        ext j
        rw [hselected, List.coe_toFinset, Set.mem_ofPred_eq]
      rw [hset, Set.encard_coe_eq_coe_finsetCard, List.toFinset_card_of_nodup hnodup] at hroom
      exact_mod_cast hroom
    rw [List.take_of_length_le]
    · exact (hselected j).1 hj
    · rw [JobQuery.effectiveLimit, show request.query?.limit = request.limit from rfl]
      split
      · omega
      · exact Nat.le_min.2 ⟨hlength, hlength.trans hmax⟩

end Regular

/-! ### Nothing else -/

/-- What was put into the catalogue is found under its name. -/
theorem jobNamed?_of_catalogue_eq_put {m : Catalogue} (h : s.catalogue = m.put j) :
    s.jobNamed? j.name = some j :=
  (congrFun (congrArg Catalogue.entry h) j.name).trans (Function.update_self ..)

namespace Regular

/-- Changing a row puts the changed job in the place of the old one. -/
theorem catalogue_updateJob (h : s.Regular) (hr : r ∈ s.jobs) {f : JobRow → JobRow}
    (hname : (f r).name = r.name) :
    (s.updateJob r.id f).catalogue = s.catalogue.put (f r).decode := by
  obtain ⟨before, after, hjobs⟩ := List.append_of_mem hr
  have hbefore : ∀ y ∈ before, y.name ≠ r.name := by
    have hnames := h.names_nodup
    rw [hjobs, List.map_append, List.map_cons, List.nodup_middle, List.nodup_cons] at hnames
    exact fun y hy heq => hnames.1 (List.mem_append_left _ (heq ▸ List.mem_map_of_mem hy))
  rw [updateJob_of_split h.jobs_nodup hjobs]
  simp only [catalogue, Catalogue.put, Catalogue.mk.injEq, and_true]
  funext name
  have hkey : (f r).decode.name = r.name := hname
  by_cases hn : name = r.name
  · subst hn
    have hnone : before.find? (·.name == r.name) = none := by
      simpa [List.find?_eq_none] using hbefore
    rw [hkey, Function.update_self]
    simp [jobNamed?, jobRowNamed?, List.find?_append, hnone, hname]
  · rw [hkey, Function.update_of_ne hn]
    simp [jobNamed?, jobRowNamed?, List.find?_append, hjobs, hname, Ne.symm hn]

theorem decode_redefine {v : JobSpec} (hname : r.name = v.name) :
    (r.redefine v now).decode = r.decode.redefined v now := by
  simp [JobRow.decode, JobRow.redefine, Job.redefined, Job.new, hname]

/-- Saving a job under a name that is taken changes its row. -/
theorem saveJob_of_mem (h : s.Regular) (hr : r ∈ s.jobs) {v : JobSpec} (hname : r.name = v.name) :
    s.saveJob v now = s.updateJob r.id (·.redefine v now) := by
  have hany : s.jobs.any (·.name == v.name) = true := List.any_eq_true.2 ⟨r, hr, by simp [hname]⟩
  rw [saveJob, if_pos hany, updateJob]
  congr 1
  refine List.map_congr_left fun y hy => ?_
  have hiff : y.name = v.name ↔ y.id = r.id := by
    constructor
    · exact fun heq => congrArg _
        (List.inj_on_of_nodup_map h.names_nodup hy hr (heq.trans hname.symm))
    · exact fun heq => (congrArg _ (List.inj_on_of_nodup_map h.jobs_nodup hy hr heq)).trans hname
  simp [hiff]

/-- The next identifier of a job is that of no job. -/
theorem nextJobId_unheld (h : s.Regular) (j : Job) (hj : s.catalogue.Holds j) :
    j.id ≠ jobIdOfSerial s.jobSerial := by
  obtain ⟨r, hr, rfl⟩ := h.holds_iff.1 hj
  exact fun heq => h.nextJobId_notMem (heq ▸ List.mem_map_of_mem hr)

/-- There are no runs under the next identifier of a job. -/
theorem runs_nextJobId (h : s.Regular) : s.catalogue.runs (jobIdOfSerial s.jobSerial) = [] := by
  have hnone : s.runs.filter (·.jobId == jobIdOfSerial s.jobSerial) = [] := by
    refine List.filter_eq_nil_iff.2 fun run hrun heq => h.nextJobId_notMem ?_
    rw [← beq_iff_eq.1 heq]
    exact h.runs_owned _ (List.mem_map_of_mem hrun)
  simp only [catalogue, hnone, List.filterMap_nil]

/-- A job that is deleted is removed, with its runs. -/
theorem catalogue_deleteJob (h : s.Regular) (hr : r ∈ s.jobs) :
    (s.deleteJob r.id).catalogue = s.catalogue.remove r.decode := by
  have hdeleted : (s.deleteJob r.id).Regular := @Regular.run _ h _ (.deleteJob r.id) trivial
  have hentry (name : String) : (s.deleteJob r.id).catalogue.entry name =
      Function.update s.catalogue.entry r.decode.name none name := by
    refine Option.ext fun j => ?_
    rw [hdeleted.entry_eq_some_iff]
    by_cases hn : name = r.name
    · subst hn
      -- the only row of that name is the one that goes
      have hgone : ¬ ∃ y ∈ (s.deleteJob r.id).jobs, y.name = r.name ∧ y.decode = j := by
        rintro ⟨y, hy, hname, -⟩
        obtain ⟨hy, hid⟩ := List.mem_filter.1 hy
        rw [List.inj_on_of_nodup_map h.names_nodup hy hr hname] at hid
        simp at hid
      rw [show r.decode.name = r.name from rfl, Function.update_self]
      exact iff_of_false hgone (by simp)
    · rw [show r.decode.name = r.name from rfl, Function.update_of_ne hn, h.entry_eq_some_iff]
      refine exists_congr fun y => and_congr_left fun hy => ?_
      simp only [deleteJob, List.mem_filter, bne_iff_ne, ne_eq]
      refine and_iff_left_of_imp fun hmem hid => hn ?_
      rw [← hy.1, List.inj_on_of_nodup_map h.jobs_nodup hmem hr hid]
  have hruns (id : String) : (s.deleteJob r.id).catalogue.runs id =
      Function.update s.catalogue.runs r.decode.id [] id := by
    have hany : s.jobs.any (·.id == r.id) = true := List.any_eq_true.2 ⟨r, hr, by simp⟩
    by_cases hid : id = r.id
    · subst hid
      simp [catalogue, deleteJob, hany, List.filter_filter]
    · have hkept :
          (s.deleteJob r.id).runs.filter (·.jobId == id) = s.runs.filter (·.jobId == id) := by
        simp only [deleteJob, hany, if_true, List.filter_filter]
        refine List.filter_congr fun run _ => ?_
        by_cases hrun : run.jobId = id <;> simp [hrun, hid]
      rw [show r.decode.id = r.id from rfl, Function.update_of_ne hid]
      simp only [catalogue, hkept]
  rw [Catalogue.remove, ← funext hentry, ← funext hruns]

end Regular

/-- Saving a job under a new name puts a new job there. -/
theorem catalogue_saveJob_of_absent {v : JobSpec} (habsent : s.jobNamed? v.name = none) :
    (s.saveJob v now).catalogue = s.catalogue.put (Job.new (jobIdOfSerial s.jobSerial) v now) := by
  have hrow : s.jobRowNamed? v.name = none := by simpa [jobNamed?] using habsent
  have hnew : (JobRow.ofSpec (jobIdOfSerial s.jobSerial) v now).decode =
      Job.new (jobIdOfSerial s.jobSerial) v now := by
    simp [JobRow.decode, JobRow.ofSpec, Job.new]
  have hany : ¬ s.jobs.any (·.name == v.name) = true := by
    simpa [jobRowNamed?, List.find?_eq_none] using hrow
  simp only [saveJob, if_neg hany, catalogue, Catalogue.put, Catalogue.mk.injEq, and_true]
  funext name
  by_cases hn : name = v.name
  · have hold : s.jobs.find? (·.name == name) = none := hn ▸ hrow
    rw [show (Job.new (jobIdOfSerial s.jobSerial) v now).name = v.name from rfl, hn,
      Function.update_self, ← hnew]
    rw [hn] at hold
    simp [jobNamed?, jobRowNamed?, List.find?_append, hold, JobRow.ofSpec]
  · rw [show (Job.new (jobIdOfSerial s.jobSerial) v now).name = v.name from rfl,
      Function.update_of_ne hn]
    simp [jobNamed?, jobRowNamed?, List.find?_append, JobRow.ofSpec, Ne.symm hn]

end Store

end Timetable
