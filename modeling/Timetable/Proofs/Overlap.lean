/-
**When runs of a job overlap.**

A fire is skipped while a run of its job is going, but not while one waits in the queue: late passes
of the scheduler queue several runs of one job, and the workers that claim them look at the run
alone, not at its job.  So two runs of a job can go at once.  This module says exactly when: a
history is free of overlaps when no claim in it takes a run whose job already has one going, claims
can make runs of a job overlap when two of them are live, and two become live when a fire is queued
beside a live one.

Main definitions:

* `Store.Apart` — no job has two runs going, `Statement.FindsIdle` — what that asks of a claim;
* `Store.LiveSingly` — no job has two live runs, `Statement.QueuesAlone` — what that asks of a fire;
* `Store.claimAll` — claims one after the other.

Main results:

* `Statement.apart_run_iff`, `Statement.liveSingly_run_iff` — one step;
* `Store.claimAll_overlaps_iff` — claims can make runs of a job overlap exactly when two are live;
* `Reached.apart_iff` — **the histories without overlaps**.
-/

import Timetable.Proofs.Interleaving
import Timetable.Proofs.Store.Counting

set_option autoImplicit false
set_option relaxedAutoImplicit false

namespace Timetable

namespace Store

/-! ### Overlaps -/

/-- **No job has two runs going.** -/
def Apart (s : Store) : Prop := ∀ jobId, s.countRunning jobId ≤ 1

/-- No job has two runs that wait or are going. -/
def LiveSingly (s : Store) : Prop := ∀ jobId, s.countLive jobId ≤ 1

/-! ### Claims -/

/-- Identifiers are unique, so a claim takes at most one run. -/
theorem Identified.countRuns_isQueued_le {s : Store} (h : s.Identified) (runId jobId : String) :
    s.countRuns (isQueued runId) jobId ≤ 1 := by
  calc s.countRuns (isQueued runId) jobId
      ≤ s.runs.countP fun r => r.id == runId := by
        refine List.countP_mono_left fun r _ hr => ?_
        simp only [Bool.and_eq_true, isQueued] at hr
        exact hr.2.1
    _ = (s.runs.map (·.id)).count runId := by
        rw [List.count, List.countP_map]
        rfl
    _ ≤ 1 := List.nodup_iff_count_le_one.1 h.runs_nodup runId

theorem claim_snd (s : Store) (runId : String) (now : Int) :
    (s.claim runId now).2 = s.updateRuns (isQueued runId) (·.started now) := rfl

/-- A claim adds the runs that it takes to those that are going. -/
theorem countRunning_claim (s : Store) (runId jobId : String) (now : Int) :
    (s.claim runId now).2.countRunning jobId =
      s.countRunning jobId + s.countRuns (isQueued runId) jobId := by
  simp only [claim_snd, updateRuns, countRunning, countRuns]
  induction s.runs with
  | nil => rfl
  | cons r rows ih =>
    simp only [List.map_cons, List.countP_cons, ih]
    cases hq : isQueued runId r with
    | false =>
      simp only [Bool.false_eq_true, if_false, Bool.and_false]
      omega
    | true =>
      -- the run that is taken was waiting, so it did not count as going before
      simp only [isQueued, Bool.and_eq_true] at hq
      have hrunning : r.hasStatus .running = false :=
        RunRow.hasStatus_of_status (RunRow.hasStatus_iff.1 hq.2) .running
      simp only [if_true, RunRow.hasStatus_started, RunRow.started_jobId, hrunning, decide_true,
        Bool.and_true, Bool.and_false, Bool.false_eq_true, if_false]
      omega

/-- A claim keeps runs apart exactly when no run of the job that it takes is going. -/
theorem apart_claim_iff {s : Store} (hid : s.Identified) (h : s.Apart) (runId : String)
    (now : Int) : (s.claim runId now).2.Apart ↔
      ∀ r ∈ s.runs, r.id = runId → r.hasStatus .queued = true → s.countRunning r.jobId = 0 := by
  simp only [Apart, countRunning_claim]
  constructor
  · intro hapart r hr hrid hqueued
    have hclaimed : 0 < s.countRuns (isQueued runId) r.jobId :=
      (s.countRuns_pos_iff _ _).2 ⟨r, hr, rfl, by simp [isQueued, hrid, hqueued]⟩
    have hone := hapart r.jobId
    omega
  · intro hidle jobId
    rcases Nat.eq_zero_or_pos (s.countRuns (isQueued runId) jobId) with hzero | hpos
    · rw [hzero]
      exact h jobId
    · obtain ⟨r, hr, rfl, hq⟩ := (s.countRuns_pos_iff _ _).1 hpos
      simp only [isQueued, Bool.and_eq_true, beq_iff_eq] at hq
      rw [hidle r hr hq.1 hq.2, Nat.zero_add]
      exact hid.countRuns_isQueued_le runId r.jobId

/-- A claim leaves as many runs live as there were. -/
theorem countLive_claim (s : Store) (runId jobId : String) (now : Int) :
    (s.claim runId now).2.countLive jobId = s.countLive jobId := by
  simp only [claim_snd, updateRuns, countLive, countRuns, List.countP_map]
  refine List.countP_congr fun r _ => ?_
  simp only [Function.comp_apply]
  split
  · rename_i hq
    simp only [isQueued, Bool.and_eq_true] at hq
    have hlive : r.isLive = true := by simp [RunRow.isLive, hq.2]
    simp only [RunRow.started_jobId, RunRow.isLive_started, hlive]
  · rfl

/-- Claims one after the other. -/
def claimAll (s : Store) (runIds : List String) (now : Int) : Store :=
  runIds.foldl (fun s runId => (s.claim runId now).2) s

theorem countLive_claimAll (s : Store) (runIds : List String) (now : Int) (jobId : String) :
    (s.claimAll runIds now).countLive jobId = s.countLive jobId := by
  induction runIds generalizing s with
  | nil => rfl
  | cons runId runIds ih => exact (ih _).trans (s.countLive_claim runId jobId now)

/-- Claims one after the other take the runs that waited in the queue. -/
theorem runs_claimAll (s : Store) (runIds : List String) (now : Int) :
    (s.claimAll runIds now).runs =
      s.runs.map fun r =>
        if r.hasStatus .queued && runIds.contains r.id then r.started now else r := by
  induction runIds generalizing s with
  | nil => simp [claimAll]
  | cons runId runIds ih =>
    have hcons : s.claimAll (runId :: runIds) now =
        (s.claim runId now).2.claimAll runIds now := rfl
    rw [hcons, ih, claim_snd, updateRuns, List.map_map]
    refine List.map_congr_left fun r _ => ?_
    simp only [Function.comp_apply, isQueued]
    by_cases hid : r.id = runId <;> by_cases hq : r.hasStatus .queued = true <;> simp [hid, hq]

/-- **Claims can make runs of a job overlap exactly when two of them are live.** -/
theorem claimAll_overlaps_iff (s : Store) (jobId : String) (now : Int) :
    (∃ runIds, 2 ≤ (s.claimAll runIds now).countRunning jobId) ↔ 2 ≤ s.countLive jobId := by
  constructor
  · rintro ⟨runIds, htwo⟩
    -- claims only turn live runs into other live ones
    rw [← s.countLive_claimAll runIds now]
    exact Nat.le_trans htwo (countRunning_le_countLive _ _)
  · intro htwo
    -- claiming everything leaves no run of the job waiting
    refine ⟨s.runs.map (·.id), Nat.le_trans htwo ?_⟩
    simp only [countRunning, runs_claimAll, countLive, countRuns, List.countP_map]
    refine List.countP_mono_left fun r hr hlive => ?_
    simp only [Bool.and_eq_true, RunRow.isLive, Bool.or_eq_true] at hlive
    have hmem : (s.runs.map (·.id)).contains r.id = true :=
      List.contains_iff_mem.2 (List.mem_map_of_mem hr)
    simp only [Function.comp_apply, hmem, Bool.and_true]
    rcases hlive.2 with hqueued | hrunning
    · simp [hqueued, hlive.1]
    · split <;> simp [hrunning, hlive.1]

/-! ### Fires -/

/-- A fire adds at most one run, which waits in the queue or was skipped. -/
theorem enqueue_runs_cases (s : Store) (id : String) (now : Int) :
    ((∀ run, (s.enqueue id now).1 ≠ .ok (.queued run)) ∧ (s.enqueue id now).2.runs = s.runs) ∨
      ∃ run, ((s.enqueue id now).1 = .ok (.queued run) ∧ run.status = .queued ∨
          (s.enqueue id now).1 = .ok (.skipped run) ∧ run.status = .skipped) ∧
        (s.enqueue id now).2.runs = (s.addFire run).runs := by
  obtain ⟨hsame, hanswer⟩ | ⟨e, hdisabled⟩ |
      ⟨r, fire, enabled, next, busy, -, -, -, -, -, hfired⟩ := s.enqueue_cases id now
  · refine Or.inl ⟨fun run hrun => ?_, by rw [hsame]⟩
    rcases hanswer with hanswer | hanswer <;> · rw [hanswer] at hrun; cases hrun
  · refine Or.inl ⟨fun run hrun => ?_, by rw [hdisabled]; rfl⟩
    rw [hdisabled] at hrun
    cases hrun
  · refine Or.inr ⟨r.decode.firedRun busy (runIdOfSerial s.runSerial) fire now, ?_, ?_⟩
    · rw [hfired]
      cases busy
      · exact Or.inl ⟨rfl, rfl⟩
      · exact Or.inr ⟨rfl, rfl⟩
    · rw [hfired]
      rfl

theorem countRuns_congr {s s' : Store} (h : s'.runs = s.runs) (test : RunRow → Bool)
    (jobId : String) : s'.countRuns test jobId = s.countRuns test jobId := by
  rw [countRuns, countRuns, h]

/-- A fire leaves as many runs going as there were. -/
theorem countRunning_enqueue (s : Store) (id : String) (now : Int) (jobId : String) :
    (s.enqueue id now).2.countRunning jobId = s.countRunning jobId := by
  simp only [countRunning_eq]
  obtain ⟨-, hsame⟩ | ⟨run, hanswer, hadd⟩ := s.enqueue_runs_cases id now
  · exact countRuns_congr hsame _ jobId
  · have hstatus : (RunRow.ofRun run).hasStatus .running = false := by
      rw [RunRow.hasStatus_ofRun]
      rcases hanswer with ⟨-, hstatus⟩ | ⟨-, hstatus⟩ <;> rw [hstatus] <;> rfl
    rw [countRuns_congr hadd, countRuns_addFire, hstatus]
    simp

/-- A fire keeps runs apart. -/
theorem Apart.enqueue {s : Store} (h : s.Apart) (id : String) (now : Int) :
    (s.enqueue id now).2.Apart := fun jobId => by
  rw [countRunning_enqueue]
  exact h jobId

/-- A fire keeps live runs single exactly when it queues none beside a live one. -/
theorem liveSingly_enqueue_iff {s : Store} (h : s.LiveSingly) (id : String) (now : Int) :
    (s.enqueue id now).2.LiveSingly ↔
      ∀ run, (s.enqueue id now).1 = .ok (.queued run) → s.countLive run.jobId = 0 := by
  simp only [LiveSingly, countLive]
  obtain ⟨hnone, hsame⟩ | ⟨run, ⟨hqueued, hstatus⟩ | ⟨hskipped, hstatus⟩, hadd⟩ :=
    s.enqueue_runs_cases id now
  · simp only [countRuns_congr hsame]
    exact iff_of_true h fun run hrun => absurd hrun (hnone run)
  · simp only [countRuns_congr hadd, countRuns_addFire, RunRow.isLive_ofRun, hstatus, hqueued]
    constructor
    · intro hsingly run' heq
      cases heq
      have hone := hsingly run.jobId
      simp only [decide_true, Bool.true_or, and_self, if_true] at hone
      omega
    · intro halone jobId
      split
      · rename_i hjob
        have hzero := halone run rfl
        rw [hjob.1] at hzero
        omega
      · exact h jobId
  · simp only [countRuns_congr hadd, countRuns_addFire, RunRow.isLive_ofRun, hstatus, hskipped]
    refine iff_of_true (fun jobId => ?_) fun run' heq => by cases heq
    simpa [countLive] using h jobId

end Store

/-! ### One step -/

namespace Statement

variable {α : Type}

/-- A statement that claims a run finds no run of the job going. -/
def FindsIdle {α : Type} : Statement α → Store → Prop
  | claim runId _, s =>
    ∀ r ∈ s.runs, r.id = runId → r.hasStatus .queued = true → s.countRunning r.jobId = 0
  | _, _ => True

/-- A statement that queues a run finds no live run of the job. -/
def QueuesAlone {α : Type} : Statement α → Store → Prop
  | enqueue id now, s =>
    ∀ run, (s.enqueue id now).1 = .ok (.queued run) → s.countLive run.jobId = 0
  | _, _ => True

/-- A statement neither claims a run nor fires a job. -/
def Quiet {α : Type} : Statement α → Prop
  | claim _ _ | enqueue _ _ => False
  | _ => True

/-- Other statements than claims and fires make no run live or going. -/
theorem countRuns_run_le (st : Statement α) (hquiet : st.Quiet) (s : Store) {test : RunRow → Bool}
    (htest : ∀ r, r.hasStatus .running = true → test r = true) (jobId : String) :
    (st.run s).2.countRuns test jobId ≤ s.countRuns test jobId := by
  cases st with
  | claim runId now => exact hquiet.elim
  | enqueue id now => exact hquiet.elim
  | deleteJob id => exact s.countRuns_deleteJob_le id test jobId
  | finish runId status error summary now =>
    refine s.countRuns_updateRuns_le (fun r hr => htest r ?_) ?_ jobId
    · simp only [Store.isRunning, Bool.and_eq_true] at hr
      exact hr.2
    · exact fun _ => rfl
  | failRunning message now =>
    refine s.countRuns_updateRuns_le htest ?_ jobId
    exact fun _ => rfl
  | saveJob spec now =>
    simp only [run, Store.saveJob]
    split <;> exact Nat.le_refl _
  | _ => exact Nat.le_refl _

/-- **One step keeps runs apart exactly when it does not claim a run beside one that is going.** -/
theorem apart_run_iff (st : Statement α) {s : Store} (hid : s.Identified) (h : s.Apart) :
    (st.run s).2.Apart ↔ st.FindsIdle s := by
  cases st with
  | claim runId now => exact Store.apart_claim_iff hid h runId now
  | enqueue id now => exact iff_of_true (h.enqueue id now) trivial
  | _ =>
    refine iff_of_true (fun jobId => ?_) trivial
    refine Nat.le_trans (countRuns_run_le _ ?_ s (fun _ hr => hr) jobId) (h jobId)
    trivial

/-- **One step keeps live runs single exactly when it queues none beside a live one.** -/
theorem liveSingly_run_iff (st : Statement α) {s : Store} (h : s.LiveSingly) :
    (st.run s).2.LiveSingly ↔ st.QueuesAlone s := by
  cases st with
  | claim runId now =>
    refine iff_of_true (fun jobId => ?_) trivial
    exact (s.countLive_claim runId jobId now).symm ▸ h jobId
  | enqueue id now => exact Store.liveSingly_enqueue_iff h id now
  | _ =>
    refine iff_of_true (fun jobId => ?_) trivial
    refine Nat.le_trans (countRuns_run_le _ ?_ s (fun _ hr => ?_) jobId) (h jobId)
    · trivial
    · simp [RunRow.isLive, hr]

end Statement

/-! ### Histories without overlaps -/

/-- **The histories without overlaps.**  Whatever is reached, by whichever parties: no job ever had
two runs going exactly when every claim on the way found no run of the job going.  From there,
claims can make runs of a job overlap exactly when two of its runs are live; and no job ever had two
live runs exactly when every fire that was queued on the way found no live run of the job. -/
theorem Reached.apart_iff {ι : Type} [DecidableEq ι] {may : ι → Operation → Prop}
    {clock : ι → Int} {d : Session ι} (h : Reached may clock d) :
    d.store = Store.after d.history ∧
      ((∀ k, (Store.after (d.history.take k)).Apart) ↔
        ∀ (k : Nat) (a : Access), d.history[k]? = some a →
          a.2.FindsIdle (Store.after (d.history.take k))) ∧
      (∀ jobId now, (∃ runIds, 2 ≤ (d.store.claimAll runIds now).countRunning jobId) ↔
        2 ≤ d.store.countLive jobId) ∧
      ((∀ k, (Store.after (d.history.take k)).LiveSingly) ↔
        ∀ (k : Nat) (a : Access), d.history[k]? = some a →
          a.2.QueuesAlone (Store.after (d.history.take k))) := by
  have hempty (jobId : String) : Store.empty.countLive jobId ≤ 1 := by
    simp [Store.countLive, Store.countRuns, Store.empty]
  refine ⟨h.store_eq, ?_, fun jobId now => d.store.claimAll_overlaps_iff jobId now, ?_⟩
  · refine always_iff (fun jobId => ?_) (fun a s hid hapart => a.2.apart_run_iff hid hapart) _
    exact Nat.le_trans (Store.countRunning_le_countLive _ jobId) (hempty jobId)
  · exact always_iff hempty (fun a s _ hsingly => a.2.liveSingly_run_iff hsingly) _

/-- An hourly job is passed over three times, and no worker takes its runs. -/
def lateFires : List (Unit × Operation) :=
  [((), .saveJob (.interval "report" "true" 3600) 0), ((), .tick 0), ((), .tick 3600),
    ((), .tick 7200)]

/-- After late passes two runs of a job are live, and claims can make them overlap. -/
theorem Reached.apart_iff_lateFires :
    ∃ clock, ∃ d : Session Unit, Reached (fun _ o => o.Ordinary) clock d ∧
      d.store.countLive "job:0" = 2 ∧
      ∃ runIds, 2 ≤ (d.store.claimAll runIds 7200).countRunning "job:0" := by
  obtain ⟨clock, d, h, hstore⟩ := Reached.of_turns (fun _ o => o.Ordinary) (fun _ => 0) lateFires
    (by simp [lateFires, Reached.MayTake, Operation.Ordinary, Operation.time])
  have hlive : d.store.countLive "job:0" = 2 := by
    rw [hstore]
    decide +kernel
  exact ⟨clock, d, h, hlive, (h.apart_iff.2.2.1 "job:0" 7200).2 (Nat.le_of_eq hlive.symm)⟩

/-- **Runs of a job can overlap**: after late passes two workers claim its two runs. -/
theorem Reached.not_always_apart :
    ¬ ∀ (clock : Unit → Int) (d : Session Unit),
      Reached (fun _ o => o.Ordinary) clock d → d.store.Apart := by
  intro hall
  obtain ⟨clock, d, h, hstore⟩ := Reached.of_turns (fun _ o => o.Ordinary) (fun _ => 0)
    (lateFires ++ [((), .claimNext 7200), ((), .claimNext 7200)])
    (by simp [lateFires, Reached.MayTake, Operation.Ordinary, Operation.time])
  have htwo : ¬ (Store.empty.performAll ((lateFires ++
      [((), Operation.claimNext 7200), ((), Operation.claimNext 7200)]).map (·.2))).countRunning
        "job:0" ≤ 1 := by decide +kernel
  exact htwo (hstore ▸ hall clock d h "job:0")

end Timetable
