/-
**Runs go one way.**

A run waits, is taken, and ends; or it is skipped and has ended from the start.  No operation of any
party takes a step back, changes what was settled when the run was created, or touches a run that
has ended, and a run goes only with its job.  The steps of a history are single statements, so this
holds between any two of them, however the parties interleave.

Main results:

* `Session.runs_one_way` — **the life of every run in every session**.
-/

import Timetable.Proofs.Session

set_option autoImplicit false
set_option relaxedAutoImplicit false

namespace Timetable.Session

variable {ι : Type} [DecidableEq ι] {s : Store}

/-- **Runs go one way.**  Whatever parties do on a store, their statements interleaved in any way: a
run that a statement creates waits or is skipped, under an identifier that was never seen before; a
statement changes the status of a run only from waiting to going and from going to one that ends the
run; a run disappears only when its job is deleted; and from one moment to any later one a run keeps
what was settled when it was created, and keeps every column once it has ended. -/
theorem runs_one_way (hs : s.RunsKeyed) {turns : List (Turn ι)}
    (hturns : ∀ t ∈ turns, t.EndsRuns) :
    ((opening s).play turns).store = s.through ((opening s).play turns).history ∧
      (∀ k a, ((opening s).play turns).history[k]? = some a →
        (∀ r' ∈ (s.stage ((opening s).play turns).history (k + 1)).runs,
          (∀ r ∈ (s.stage ((opening s).play turns).history k).runs, r.id ≠ r'.id) →
          (r'.hasStatus .queued = true ∨ r'.hasStatus .skipped = true) ∧
            ∀ j ≤ k, ∀ r ∈ (s.stage ((opening s).play turns).history j).runs, r.id ≠ r'.id) ∧
        (∀ r ∈ (s.stage ((opening s).play turns).history k).runs,
          ∀ r' ∈ (s.stage ((opening s).play turns).history (k + 1)).runs, r'.id = r.id →
          r'.status = r.status ∨
            r.hasStatus .queued = true ∧ r'.hasStatus .running = true ∨
            r.hasStatus .running = true ∧ r'.isOver = true) ∧
        ∀ r ∈ (s.stage ((opening s).play turns).history k).runs,
          (∀ r' ∈ (s.stage ((opening s).play turns).history (k + 1)).runs, r'.id ≠ r.id) →
          a.2.Deletes r.jobId) ∧
      ∀ j k, j ≤ k → ∀ r ∈ (s.stage ((opening s).play turns).history j).runs,
        ∀ r' ∈ (s.stage ((opening s).play turns).history k).runs, r'.id = r.id →
        r'.origin = r.origin ∧ (r.isOver = true → r' = r) := by
  have htracked := tracked_play s hturns
  generalize (opening s).play turns = d at htracked
  have hends := htracked.ends
  have hkeyed (k : Nat) : (s.stage d.history k).RunsKeyed := hs.stage hends k
  refine ⟨htracked.store_eq, fun k a ha => ?_, fun j k hjk r hr r' hr' hid => ?_⟩
  · have hlast : a.2.EndsRuns := hends a (List.mem_of_getElem? ha)
    rw [Store.stage_succ ha]
    refine ⟨fun r' hr' hnew => ?_, fun r hr r' hr' hid => ?_, fun r hr hgone => ?_⟩
    · obtain ⟨hid, hstatus⟩ := Statement.created_run hlast hr' hnew
      -- identifiers are given in order, so the next one has never been on a run
      refine ⟨hstatus, fun j hjk r hr heq => ?_⟩
      exact (hkeyed j).issued hr _ (Store.runSerial_stage_le hends hjk) (heq.trans hid)
    · exact (Statement.change_run (hkeyed k) hlast hr hr' hid).status_cases
    · exact Statement.deletes_of_gone hlast hr hgone
  · have hcourse : r.Course r' := hs.course_stage hends hjk hr hr' hid
    exact ⟨hcourse.origin_eq, hcourse.eq_of_isOver⟩

/-- A job fires twice; the first run is taken and ends, the second one is skipped, as the first is
still going; and the job is deleted. -/
def lifeOfTwoRuns : List (Turn Unit) :=
  [.take () (.saveJob (.interval "report" "true" 3600) 0), .act (), .act (),
    .take () (.tick 0), .act (), .act (), .act (),
    .take () (.enqueue "job:0" 3600), .act (), .take () (.claimNext 3700), .act (), .act (),
    .take () (.enqueue "job:0" 7200), .act (),
    .take () (.finish "run:0" .succeeded none (some "done") 7300), .act (),
    .take () (.deleteJob "job:0"), .act ()]

/-- The first of two runs waits, is going and succeeds, the second one was skipped; and with their
job both go. -/
theorem runs_one_way_of_two :
    ((List.range 12).map fun k =>
      (Store.empty.stage ((opening .empty).play lifeOfTwoRuns).history k).runs.map (·.status)) =
      [[], [], [], [], [], [], ["queued"], ["queued"], ["running"], ["running", "skipped"],
        ["succeeded", "skipped"], []] ∧
    ∀ j k, j ≤ k → ∀ r ∈ (Store.empty.stage ((opening .empty).play lifeOfTwoRuns).history j).runs,
      ∀ r' ∈ (Store.empty.stage ((opening .empty).play lifeOfTwoRuns).history k).runs,
        r'.id = r.id → r'.origin = r.origin ∧ (r.isOver = true → r' = r) := by
  have hturns : ∀ t ∈ lifeOfTwoRuns, t.EndsRuns := by
    simp [lifeOfTwoRuns, Turn.EndsRuns, Operation.EndsRuns, RunStatus.isTerminal]
  exact ⟨by decide +kernel, (runs_one_way Store.identified_empty.runsKeyed hturns).2.2⟩

end Timetable.Session
