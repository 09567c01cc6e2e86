/-
**Jobs keep their numbers.**

A job is told apart from the others by its identifier, and gets the next one that has not been given
out.  What a party may rely on is only that much: no two rows share an identifier, and the
identifiers of later jobs are on no row.  Every statement keeps it, whatever else the tables hold.

Main definitions:

* `Store.JobsNumbered` — jobs are told apart by identifiers, and no later one has been given out.

Main results:

* `Store.JobsNumbered.run` — every statement keeps the jobs numbered.
-/

import Timetable.Proofs.Overtaking
import Timetable.Proofs.Store.Identity

set_option autoImplicit false
set_option relaxedAutoImplicit false

namespace Timetable

/-! ### Jobs and their numbers -/

namespace Store

/-- **Jobs are told apart by their identifiers**, and the identifiers of later jobs are on no
row. -/
structure JobsNumbered (s : Store) : Prop where
  /-- No two jobs have the same identifier. -/
  ids : (s.jobs.map (·.id)).Nodup
  /-- Later identifiers have not been given to a job. -/
  fresh : ∀ k, s.jobSerial ≤ k → jobIdOfSerial k ∉ s.jobs.map (·.id)

variable {s x : Store}

theorem Identified.jobsNumbered (h : s.Identified) : s.JobsNumbered where
  ids := h.jobs_nodup
  fresh k hk hmem := by
    obtain ⟨i, hi, heq⟩ := h.jobs_issued _ hmem
    have := jobIdOfSerial_injective heq
    omega

namespace JobsNumbered

theorem of_sublist (h : s.JobsNumbered)
    (hids : (x.jobs.map (·.id)).Sublist (s.jobs.map (·.id))) (hserial : x.jobSerial = s.jobSerial) :
    x.JobsNumbered where
  ids := hids.nodup h.ids
  fresh k hk hmem := h.fresh k (hserial ▸ hk) (hids.subset hmem)

theorem updateJob (h : s.JobsNumbered) (id : String) {f : JobRow → JobRow}
    (hf : ∀ r, (f r).id = r.id) : (s.updateJob id f).JobsNumbered :=
  h.of_sublist (by rw [map_id_updateJob s id hf]) rfl

theorem saveJob (h : s.JobsNumbered) (spec : JobSpec) (now : Int) :
    (s.saveJob spec now).JobsNumbered := by
  unfold Store.saveJob
  split
  · exact h.of_sublist (by rw [map_id_redefine s spec now]) rfl
  · have hids : (s.jobs ++ [JobRow.ofSpec (jobIdOfSerial s.jobSerial) spec now]).map (·.id) =
        s.jobs.map (·.id) ++ [jobIdOfSerial s.jobSerial] := by
      rw [List.map_append]
      rfl
    refine ⟨?_, fun k hk => ?_⟩
    · simp only [hids]
      exact List.nodup_append_comm.1
        (List.nodup_cons.2 ⟨h.fresh _ (Nat.le_refl _), h.ids⟩)
    · simp only [hids, List.mem_append, List.mem_singleton, not_or]
      have hk' : s.jobSerial + 1 ≤ k := hk
      refine ⟨h.fresh k (Nat.le_of_succ_le hk'), fun heq => ?_⟩
      have := jobIdOfSerial_injective heq
      omega

/-- **Every statement keeps the jobs numbered.** -/
theorem run {α : Type} (h : s.JobsNumbered) (st : Statement α) : (st.run s).2.JobsNumbered := by
  cases st with
  | saveJob spec now => exact h.saveJob spec now
  | disableJob id now => exact h.updateJob id fun _ => rfl
  | deleteJob id => exact h.of_sublist (List.filter_sublist.map _) rfl
  | setNextRun id next now => exact h.updateJob id fun _ => rfl
  | disableInvalid id now => exact h.updateJob id fun _ => rfl
  | enqueue id now =>
    obtain ⟨hsame, -⟩ | ⟨e, hdisabled⟩ | ⟨r, fire, enabled, next, busy, -, -, -, -, -, hfired⟩ :=
      s.enqueue_cases id now
    · exact hsame.symm ▸ h
    · simp only [Statement.run, hdisabled]
      exact h.updateJob id fun _ => rfl
    · simp only [Statement.run, hfired]
      exact (h.of_sublist (x := s.addFire _) (List.Sublist.refl _) rfl).updateJob id fun _ => rfl
  | claim runId now => exact h.of_sublist (List.Sublist.refl _) rfl
  | finish runId status error summary now => exact h.of_sublist (List.Sublist.refl _) rfl
  | failRunning message now => exact h.of_sublist (List.Sublist.refl _) rfl
  | _ => exact h

end JobsNumbered

end Store

end Timetable
