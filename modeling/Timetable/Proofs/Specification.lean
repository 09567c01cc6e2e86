/-
**What a checked specification says.**

A specification is stored only in the normal form that checking it gives.  So whatever is read back
later has a schedule that can be used: either a cron expression that was read before, or an interval
that is positive and not too long; and its overlap policy is the one that there is.

Main definitions:

* `Schedulable` — a schedule that can be stored;
* `JobSpec.Checked`, `JobSpec.Normal` — a specification in normal form, as far as firing the job is
  concerned and as a whole;
* `JobSpec.Validated` — what checking makes of a specification.

Main results:

* `Text.trim_trim` — a trimmed text has nothing left to trim;
* `JobSpec.validated_of_validate`, `JobSpec.Validated.normal` — **what was checked is in normal
  form**.
-/

import Mathlib.Data.List.DropRight
import Timetable.Job.Spec

set_option autoImplicit false
set_option relaxedAutoImplicit false

namespace Timetable

/-! ### Trimming -/

namespace Text

/-- Blanks at the end are dropped without making room for blanks at the start. -/
theorem dropWhile_trimChars (cs : List Char) :
    (trimChars cs).dropWhile isBlank = trimChars cs := by
  rw [List.dropWhile_eq_self_iff]
  intro hpos hblank
  have hprefix : trimChars cs <+: cs.dropWhile isBlank := List.rdropWhile_prefix _ _
  obtain ⟨rest, hrest⟩ := hprefix
  cases htrim : trimChars cs with
  | nil => simp [htrim] at hpos
  | cons c ds =>
    have hhead : (cs.dropWhile isBlank).head? = some c := by rw [← hrest, htrim]; rfl
    have hnot := List.head?_dropWhile_not isBlank cs
    rw [hhead] at hnot
    simp only [htrim, List.getElem_cons_zero] at hblank
    simp [hblank] at hnot

theorem trimChars_trimChars (cs : List Char) : trimChars (trimChars cs) = trimChars cs := by
  have hidem := List.rdropWhile_idempotent isBlank (cs.dropWhile isBlank)
  rw [trimChars, dropWhile_trimChars]
  exact hidem

/-- **A trimmed text has nothing left to trim.** -/
theorem trim_trim (s : String) : trim (trim s) = trim s := by
  rw [trim, toList_trim, trimChars_trimChars]
  rfl

theorem nonBlank?_eq_some {s t : String} (h : nonBlank? s = some t) : t = trim s ∧ t ≠ "" := by
  unfold nonBlank? at h
  dsimp only at h
  split at h
  · cases h
  · rename_i hne
    cases h
    exact ⟨rfl, hne⟩

theorem ne_empty_of_nonBlank? {s t : String} (h : nonBlank? s = some t) : t ≠ "" :=
  (nonBlank?_eq_some h).2

theorem trim_eq_of_nonBlank? {s t : String} (h : nonBlank? s = some t) : trim t = t := by
  rw [(nonBlank?_eq_some h).1, trim_trim]

theorem trim_ne_empty_of_nonBlank? {s t : String} (h : nonBlank? s = some t) : trim t ≠ "" := by
  rw [trim_eq_of_nonBlank? h]
  exact ne_empty_of_nonBlank? h

end Text

/-! ### Normal form -/

/-- **A schedule that can be stored**: a cron expression that can be read, or an interval that is
positive and not too long, and not both. -/
inductive Schedulable : Option String → Option Int → Prop where
  /-- Only a cron expression is given. -/
  | cron {text : String} {e : Cron.Expression} (hblank : Text.trim text ≠ "")
    (hparse : Cron.Expression.parse text = .ok e) : Schedulable (some text) none
  /-- Only an interval is given. -/
  | interval {seconds : Int} (hpos : 0 < seconds) (hle : seconds ≤ Job.maxInterval) :
    Schedulable none (some seconds)

/-- **A specification in normal form**, as far as firing the job is concerned. -/
structure JobSpec.Checked (spec : JobSpec) : Prop where
  /-- The schedule can be stored. -/
  schedule : Schedulable spec.cronExpression spec.intervalSeconds
  /-- The policy is written by its name. -/
  policy : spec.overlapPolicy = some OverlapPolicy.forbid.name

/-- **A specification in normal form.** -/
structure JobSpec.Normal (spec : JobSpec) : Prop extends spec.Checked where
  /-- The name is trimmed. -/
  name : Text.trim spec.name = spec.name
  /-- There is a name. -/
  name_ne : spec.name ≠ ""
  /-- The task is trimmed. -/
  task : Text.trim spec.task = spec.task
  /-- There is a task. -/
  task_ne : spec.task ≠ ""
  /-- A deadline is positive and not too long. -/
  timeout : ∀ seconds, spec.timeoutSeconds = some seconds → 0 < seconds ∧ seconds ≤ Job.maxTimeout

namespace JobSpec

/-- A schedule that passes the check can be stored. -/
theorem schedulable_of_checkSchedule {cronExpression : Option String} {seconds : Option Int}
    (hblank : ∀ text, cronExpression = some text → Text.trim text ≠ "")
    (hpos : ∀ s, seconds = some s → 0 < s)
    (h : checkSchedule cronExpression seconds = .ok ()) : Schedulable cronExpression seconds := by
  cases cronExpression with
  | none =>
    cases seconds with
    | none => cases h
    | some s =>
      have hle : ¬ (Job.maxInterval : Int) < s := fun hlt => by simp [checkSchedule, hlt] at h
      exact .interval (hpos s rfl) (Int.not_lt.1 hle)
  | some text =>
    cases seconds with
    | some s => cases h
    | none =>
      cases hparse : Cron.Expression.parse text with
      | error e => simp [checkSchedule, hparse] at h
      | ok e => exact .cron (hblank text rfl) hparse

/-- **What checking makes of a specification**: the texts are trimmed and not blank, numbers are
positive, and the schedule, the deadline and the policy have passed their checks. -/
structure Validated (spec v : JobSpec) : Prop where
  /-- The name is that of the specification, trimmed. -/
  name : Text.nonBlank? spec.name = some v.name
  /-- The task is that of the specification, trimmed. -/
  task : Text.nonBlank? spec.task = some v.task
  /-- The job fires if it was to. -/
  enabled : v.enabled = spec.enabled
  /-- A blank expression is dropped. -/
  cronExpression : v.cronExpression = spec.cronExpression.bind Text.nonBlank?
  /-- An interval that is not positive is dropped. -/
  intervalSeconds : v.intervalSeconds = positive? spec.intervalSeconds
  /-- The schedule passes its check. -/
  schedule : checkSchedule v.cronExpression v.intervalSeconds = .ok ()
  /-- A deadline that is not positive is dropped. -/
  timeoutSeconds : v.timeoutSeconds = positive? spec.timeoutSeconds
  /-- The deadline is not too long. -/
  timeout_le : ∀ seconds, v.timeoutSeconds = some seconds → seconds ≤ Job.maxTimeout
  /-- The policy is written by its name. -/
  policy : v.overlapPolicy = some OverlapPolicy.forbid.name

/-- **What passes the check has been made so.** -/
theorem validated_of_validate {spec v : JobSpec} (h : spec.validate = .ok v) :
    spec.Validated v := by
  simp only [validate, bind, Except.bind, pure, Except.pure] at h
  repeat' split at h
  all_goals cases h
  rename_i name hname _ task htask _ _ hschedule htimeout _ policy _
  refine ⟨hname, htask, rfl, rfl, rfl, hschedule, rfl, fun seconds hseconds => ?_, ?_⟩
  · have hgiven : positive? spec.timeoutSeconds = some seconds := hseconds
    rw [hgiven] at htimeout
    simpa using htimeout
  · cases policy
    rfl

namespace Validated

variable {spec v : JobSpec}

theorem schedulable (h : spec.Validated v) : Schedulable v.cronExpression v.intervalSeconds := by
  refine schedulable_of_checkSchedule (fun text htext => ?_) (fun s hs => ?_) h.schedule
  · obtain ⟨given, -, hgiven⟩ := Option.bind_eq_some_iff.1 (h.cronExpression.symm.trans htext)
    exact Text.trim_ne_empty_of_nonBlank? hgiven
  · simpa using (Option.filter_eq_some_iff.1 (h.intervalSeconds.symm.trans hs)).2

/-- What was checked is in normal form. -/
theorem normal (h : spec.Validated v) : v.Normal where
  schedule := h.schedulable
  policy := h.policy
  name := Text.trim_eq_of_nonBlank? h.name
  name_ne := Text.ne_empty_of_nonBlank? h.name
  task := Text.trim_eq_of_nonBlank? h.task
  task_ne := Text.ne_empty_of_nonBlank? h.task
  timeout seconds hseconds := by
    have hpos := (Option.filter_eq_some_iff.1 (h.timeoutSeconds.symm.trans hseconds)).2
    exact ⟨by simpa using hpos, h.timeout_le seconds hseconds⟩

end Validated

/-- **What was checked is in normal form**, as far as firing the job is concerned. -/
theorem checked_of_validate {spec v : JobSpec} (h : spec.validate = .ok v) : v.Checked :=
  (validated_of_validate h).normal.toChecked

end JobSpec

end Timetable
