/-
**The history of a job.**

The runs of a job are listed from the latest fire on, and a limit says how many.  The limit is an
unsigned number of 64 bits that is handed on as a signed one, so half of its values arrive as
negative numbers; a negative limit is no limit at all, and nothing is lost by this, because no table
has that many rows.  A listing is thus a beginning of one list, the history of the job, whatever the
limit is.

Main definitions:

* `Run.ListedBefore` — **a run comes before another one** in a history;
* `Store.HoldsRun` — a run of a job that a store holds;
* `Store.History` — all runs of a job, in order;
* `Store.Recent` — **the runs that are to be listed for a limit**.

Main results:

* `Store.rowLimit_toNat` — what becomes of a limit;
* `Store.laterRun_iff` — rows are compared as their runs are;
* `Store.history_runsOf` — **the runs of a job are a history**;
* `Store.listRuns_recent` — **what is listed is what is to be listed**, for every limit.
-/

import Timetable.Proofs.Listing
import Timetable.Proofs.Saving

set_option autoImplicit false
set_option relaxedAutoImplicit false

namespace Timetable

/-! ### Runs in a history -/

/-- **A run comes before another one in a history**: it stands for a later fire, or for the same one
and was created later. -/
def Run.ListedBefore (a b : Run) : Prop :=
  b.scheduledFor < a.scheduledFor ∨ a.scheduledFor = b.scheduledFor ∧ b.createdAt < a.createdAt

namespace Store

/-- **A run of a job** that a store holds. -/
def HoldsRun (s : Store) (jobId : String) (run : Run) : Prop :=
  run.jobId = jobId ∧ ∃ r ∈ s.runs, r.decode = .ok run

/-- **All runs of a job**, each once and in order. -/
structure History (s : Store) (jobId : String) (runs : List Run) : Prop where
  /-- No run is there twice. -/
  once : (runs.map (·.id)).Nodup
  /-- The runs are those that the store holds. -/
  mem_iff : ∀ run, run ∈ runs ↔ s.HoldsRun jobId run
  /-- They stand in order. -/
  ordered : runs.Pairwise fun a b => ¬ b.ListedBefore a

/-- **The runs that are to be listed for a limit**: each once, only runs of the job, as many as the
limit says if there are so many, none before one that is to stand before it, and none instead of one
that is to stand before it. -/
structure Recent (s : Store) (jobId : String) (limit : UInt64) (runs : List Run) : Prop where
  /-- No run is listed twice. -/
  once : (runs.map (·.id)).Nodup
  /-- Runs of the job are listed. -/
  held : ∀ run ∈ runs, s.HoldsRun jobId run
  /-- There are as many of them as the limit says, or as there are.  For a limit that arrives as a
  negative number this takes a table of no more than two to the sixty-third rows, and no database
  file has room for so many. -/
  length : limit.toNat < 2 ^ 63 ∨ {run | s.HoldsRun jobId run}.ncard ≤ 2 ^ 63 →
    runs.length = min limit.toNat {run | s.HoldsRun jobId run}.ncard
  /-- A limit that is negative as a signed number lets all of them through. -/
  unlimited : limit.toInt64 < 0 → ∀ run, s.HoldsRun jobId run → run ∈ runs
  /-- They stand in order. -/
  ordered : runs.Pairwise fun a b => ¬ b.ListedBefore a
  /-- Nothing that is left out comes before what is listed. -/
  first : ∀ run, s.HoldsRun jobId run → run ∉ runs → ∀ k ∈ runs, ¬ run.ListedBefore k

/-! ### Limits -/

/-- A number of 64 bits is negative as a signed one from two to the sixty-third on. -/
theorem toInt64_neg_iff (limit : UInt64) : limit.toInt64 < 0 ↔ 2 ^ 63 ≤ limit.toNat := by
  have hlt : limit.toNat < 2 ^ 64 := limit.toNat_lt
  rw [Int64.lt_iff_toInt_lt, Int64.toInt_zero, Int64.toInt, UInt64.toBitVec_toInt64,
    BitVec.toInt_eq_toNat_cond, UInt64.toNat_toBitVec]
  split <;> omega

/-- **What becomes of a limit**: it is handed on as a signed number, and a negative one is no
limit. -/
theorem rowLimit_toNat (limit : UInt64) :
    rowLimit limit.toNat = if limit.toInt64 < 0 then none else some limit.toNat := by
  have hmax : limit.toNat ≤ Text.int64Max.toNat ↔ ¬ limit.toInt64 < 0 := by
    have hvalue : Text.int64Max.toNat = 2 ^ 63 - 1 := rfl
    rw [toInt64_neg_iff, hvalue]
    omega
  by_cases hneg : limit.toInt64 < 0
  · rw [rowLimit, if_neg (by rwa [hmax, not_not]), if_pos hneg]
  · rw [rowLimit, if_pos (hmax.2 hneg), if_neg hneg]

/-! ### Rows and runs -/

theorem laterRun_iff {a b : RunRow} : laterRun a b = true ↔
    b.scheduledFor < a.scheduledFor ∨
      a.scheduledFor = b.scheduledFor ∧ b.createdAt ≤ a.createdAt := by
  have hgt :
      (newestFirst a.scheduledFor b.scheduledFor).then (newestFirst a.createdAt b.createdAt) = .gt ↔
        a.scheduledFor < b.scheduledFor ∨
          a.scheduledFor = b.scheduledFor ∧ a.createdAt < b.createdAt := by
    rw [Ordering.then_eq_gt, newestFirst_eq_gt_iff, newestFirst_eq_eq_iff, newestFirst_eq_gt_iff]
  rw [laterRun, Ordering.isLE_iff_ne_gt, hgt]
  omega

/-- **Rows are compared as their runs are.** -/
theorem laterRun_ofRun_iff {a b : Run} :
    laterRun (.ofRun a) (.ofRun b) = true ↔ ¬ b.ListedBefore a := by
  rw [laterRun_iff, Run.ListedBefore]
  simp only [RunRow.ofRun]
  omega

theorem pairwise_orderedRuns (s : Store) (jobId : String) :
    (s.orderedRuns jobId).Pairwise fun a b => laterRun a b = true := by
  have htrans (a b c : RunRow) (hab : laterRun a b = true) (hbc : laterRun b c = true) :
      laterRun a c = true := by
    rw [laterRun_iff] at *
    omega
  have htotal (a b : RunRow) : (laterRun a b || laterRun b a) = true := by
    rw [Bool.or_eq_true, laterRun_iff, laterRun_iff]
    omega
  exact List.pairwise_mergeSort htrans htotal _

variable {s : Store} {jobId : String} {run : Run} {r : RunRow}

theorem mem_orderedRuns : r ∈ s.orderedRuns jobId ↔ r ∈ s.runs ∧ r.jobId = jobId := by
  rw [(s.perm_orderedRuns jobId).mem_iff, List.mem_filter, beq_iff_eq]

/-- The runs of a job, as its rows are read. -/
def runsOf (s : Store) (jobId : String) : List Run := (s.orderedRuns jobId).filterMap RunRow.run?

theorem mem_runsOf : run ∈ s.runsOf jobId ↔ s.HoldsRun jobId run := by
  have hread (r : RunRow) : r.run? = some run ↔ r.decode = .ok run := by
    rw [RunRow.run?]
    cases r.decode <;> simp [Except.toOption]
  simp only [runsOf, List.mem_filterMap, mem_orderedRuns, hread, HoldsRun]
  constructor
  · rintro ⟨r, ⟨hr, rfl⟩, hdecode⟩
    exact ⟨by rw [RunRow.eq_ofRun_of_decode hdecode]; rfl, r, hr, hdecode⟩
  · rintro ⟨rfl, r, hr, hdecode⟩
    exact ⟨r, ⟨hr, by rw [RunRow.eq_ofRun_of_decode hdecode]; rfl⟩, hdecode⟩

/-- A history is as long as there are runs. -/
theorem History.length {runs : List Run} (h : s.History jobId runs) :
    runs.length = {run | s.HoldsRun jobId run}.ncard := by
  have hset : {run | s.HoldsRun jobId run} = (runs.toFinset : Set Run) := by
    ext run
    rw [Set.mem_ofPred_eq, ← h.mem_iff, List.coe_toFinset, Set.mem_ofPred_eq]
  rw [hset, Set.ncard_coe_finset, List.toFinset_card_of_nodup h.once.of_map]

section Readable

variable (hreads : ∀ r ∈ s.runs, ∃ run, r.decode = .ok run)
include hreads

theorem readable_orderedRuns (jobId : String) : ∀ r ∈ s.orderedRuns jobId, r.Readable :=
  fun r hr => RunRow.readable_iff.2 (hreads r (mem_orderedRuns.1 hr).1)

/-- Where every row can be read, the rows of a job are those of its runs. -/
theorem map_ofRun_runsOf (jobId : String) :
    (s.runsOf jobId).map RunRow.ofRun = s.orderedRuns jobId :=
  map_ofRun_filterMap_run? (readable_orderedRuns hreads jobId)

/-- **The runs of a job are a history.** -/
theorem history_runsOf (hkeyed : (s.runs.map (·.id)).Nodup) (jobId : String) :
    s.History jobId (s.runsOf jobId) where
  once := by
    have hids : (s.runsOf jobId).map (·.id) = (s.orderedRuns jobId).map (·.id) := by
      rw [← map_ofRun_runsOf hreads, List.map_map]
      rfl
    rw [hids, ((s.perm_orderedRuns jobId).map _).nodup_iff]
    exact (List.filter_sublist.map _).nodup hkeyed
  mem_iff _ := mem_runsOf
  ordered := by
    have hsorted := s.pairwise_orderedRuns jobId
    rw [← map_ofRun_runsOf hreads, List.pairwise_map] at hsorted
    exact hsorted.imp laterRun_ofRun_iff.1

/-- A listing is a beginning of the history. -/
theorem exists_listRuns_append (jobId : String) (limit : Nat) :
    ∃ runs rest, s.listRuns jobId limit = .ok runs ∧ s.runsOf jobId = runs ++ rest ∧
      runs.length =
        min ((rowLimit limit).getD (s.runsOf jobId).length) (s.runsOf jobId).length := by
  have hreadable := readable_orderedRuns hreads jobId
  have hall : (s.runsOf jobId).length = (s.orderedRuns jobId).length := by
    rw [← map_ofRun_runsOf hreads, List.length_map]
  rw [listRuns_eq, ← hall]
  generalize (rowLimit limit).getD (s.runsOf jobId).length = n
  have hkept : ∀ r ∈ (s.orderedRuns jobId).take n, r.Readable :=
    fun r hr => hreadable r (List.mem_of_mem_take hr)
  refine ⟨_, ((s.orderedRuns jobId).drop n).filterMap RunRow.run?, mapM_decode hkept, ?_, ?_⟩
  · rw [← List.filterMap_append, List.take_append_drop, runsOf]
  · calc (((s.orderedRuns jobId).take n).filterMap RunRow.run?).length
      _ = ((((s.orderedRuns jobId).take n).filterMap RunRow.run?).map RunRow.ofRun).length := by
        rw [List.length_map]
      _ = min n (s.runsOf jobId).length := by
        rw [map_ofRun_filterMap_run? hkept, List.length_take, hall]

end Readable

/-- **What is listed is what is to be listed**, whatever the limit.  Where every row can be read and
runs are told apart by their identifiers, the runs of a job are listed without changing the store:
each of them once, from the latest fire on, as many as the limit says or as there are, and none
instead of one that is to stand before it.  The limit may be any number of 64 bits; where it is
negative as a signed number, everything is listed. -/
theorem listRuns_recent (hkeyed : (s.runs.map (·.id)).Nodup)
    (hreads : ∀ r ∈ s.runs, ∃ run, r.decode = .ok run) (jobId : String) (limit : UInt64) :
    ∃ runs, (Management.listRuns jobId limit.toNat).runStore s = (.ok runs, s) ∧
      s.Recent jobId limit runs := by
  have hhistory := history_runsOf hreads hkeyed jobId
  obtain ⟨runs, rest, hlist, happend, hlength⟩ := exists_listRuns_append hreads jobId limit.toNat
  rw [happend] at hhistory hlength
  have hall := hhistory.length
  obtain ⟨hordered, -, hfirst⟩ := List.pairwise_append.1 hhistory.ordered
  have hrun : Statement.run (.listRuns jobId limit.toNat) s = (.ok runs, s) := by
    rw [Statement.run, hlist]
    rfl
  refine ⟨runs, Management.runStore_statement hrun, ?_, fun run hmem => ?_, fun hsize => ?_,
    fun hneg run hrun => ?_, hordered, fun run hrun hleft k hk => ?_⟩
  · exact ((List.sublist_append_left runs rest).map _).nodup hhistory.once
  · exact (hhistory.mem_iff run).1 (List.mem_append_left rest hmem)
  · rw [rowLimit_toNat, hall] at hlength
    split at hlength
    next hneg =>
      rw [toInt64_neg_iff] at hneg
      rw [hlength, Option.getD_none]
      omega
    next => exact hlength
  · rw [rowLimit_toNat, if_pos hneg, Option.getD_none, Nat.min_self, List.length_append] at hlength
    have hrest : rest = [] := List.eq_nil_of_length_eq_zero (by omega)
    have hmem := (hhistory.mem_iff run).2 hrun
    rwa [hrest, List.append_nil] at hmem
  · have hmem := List.mem_append.1 ((hhistory.mem_iff run).2 hrun)
    exact hfirst k hk run (hmem.resolve_left hleft)

/-- Two runs of one fire, the later of which was created a minute after the other, one of an earlier
fire, and one of another job. -/
def fourRuns : Store where
  runs := [
    .ofRun ⟨"run:0", "job:0", 0, .succeeded, 3600, some 3601, some 3602, 1, none, none, 3600⟩,
    .ofRun ⟨"run:1", "job:0", 0, .queued, 7200, none, none, 1, none, none, 7200⟩,
    .ofRun ⟨"run:2", "job:1", 0, .running, 7200, some 7205, none, 1, none, none, 7200⟩,
    .ofRun ⟨"run:3", "job:0", 0, .skipped, 7200, none, some 7260, 1, none, none, 7260⟩]

/-- Two of three runs are listed for the limit two, and all three for the greatest limit, which is
negative as a signed number. -/
theorem listRuns_recent_fourRuns :
    (fourRuns.runs.map (·.id)).Nodup ∧ (∀ r ∈ fourRuns.runs, ∃ run, r.decode = .ok run) ∧
    (∃ runs, (Management.listRuns "job:0" 2).runStore fourRuns = (.ok runs, fourRuns) ∧
      fourRuns.Recent "job:0" 2 runs) ∧
    (18446744073709551615 : UInt64).toInt64 < 0 ∧
    ∃ runs, (Management.listRuns "job:0" 18446744073709551615).runStore fourRuns =
      (.ok runs, fourRuns) ∧
      fourRuns.Recent "job:0" 18446744073709551615 runs := by
  have hkeyed : (fourRuns.runs.map (·.id)).Nodup := by decide
  have hreads : ∀ r ∈ fourRuns.runs, ∃ run, r.decode = .ok run := by
    simp only [fourRuns, List.forall_mem_cons]
    exact ⟨⟨_, RunRow.decode_ofRun (by decide)⟩, ⟨_, RunRow.decode_ofRun (by decide)⟩,
      ⟨_, RunRow.decode_ofRun (by decide)⟩, ⟨_, RunRow.decode_ofRun (by decide)⟩, by simp⟩
  exact ⟨hkeyed, hreads, listRuns_recent hkeyed hreads "job:0" 2, by decide,
    listRuns_recent hkeyed hreads "job:0" 18446744073709551615⟩

end Store

end Timetable
