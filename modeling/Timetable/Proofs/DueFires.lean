/-
**What becomes of a fire that is due.**

In a store that has been worked on by operations alone, the definition of every job is in normal
form and every next fire was computed from it.  A fire that is due can therefore be recorded, and
the following one be computed, with one exception: a cron expression may have no fire in the 366
days after it.  Then the job is disabled instead, and the fire goes unrecorded.  The exception is a
matter of leap days: it needs an expression that admits no date of a common year, and a fire on a 29
February.

Main definitions:

* `Job.IsLastFire` — the following fire would lie beyond the search window;
* `JobRow.Sound`, `Store.Sound` — definitions are in normal form, and next fires come from them;
* `Operation.Regular` — an operation, not later than an instant, that does not set next fires by
  hand.

Main results:

* `JobRow.Sound.takeFire_cases` — what becomes of a fire that is due;
* `JobRow.Sound.leapDay_of_isLastFire` — the exception is a matter of leap days;
* `Store.Sound.perform` — every regular operation keeps the store sound;
* `Store.due_fires_recorded` — **what becomes of the fires that are due**.
-/

import Timetable.Proofs.Edits
import Timetable.Proofs.Pass.Loops
import Timetable.Proofs.Specification

set_option autoImplicit false
set_option relaxedAutoImplicit false

namespace Timetable

open Program Scheduler

/-! ### The fire after a fire -/

namespace Job

variable {j : Job} {text : String} {e : Cron.Expression} {after fire next : Int}

/-- **A fire is the last one of a job** for the time being: the job is to go on, but its cron
expression has no fire in the 366 days after this one. -/
def IsLastFire (j : Job) (fire : Int) : Prop :=
  j.runOnce = false ∧ ∃ text e, j.cronExpression = some text ∧
    Cron.Expression.parse text = .ok e ∧
    e.firesIn (Cron.firstMinute fire) (Cron.firstMinute fire + Cron.windowDays * Instant.day) = ∅

theorem nextFire_of_cron (hcron : j.cronExpression = some text) (hblank : Text.trim text ≠ "") :
    j.nextFire after = nextCronFire text after := by
  simp [nextFire, expression?, hcron, Option.filter, hblank]

theorem nextFire_of_interval (hcron : j.cronExpression = none) :
    j.nextFire after = nextIntervalFire j.intervalSeconds after := by
  simp [nextFire, expression?, hcron]

/-- The longest interval fits in the numbers that lie beyond representable time. -/
theorem nextIntervalFire_eq (hfits : Cron.WindowFits after) {seconds : Int} (hpos : 0 < seconds)
    (hle : seconds ≤ maxInterval) :
    nextIntervalFire (some seconds) after = .ok (after + seconds) := by
  have hlater := Cron.lt_firstMinute after
  have hfit : after + seconds ≤ Text.int64Max := by
    simp only [Cron.WindowFits, Cron.windowDays, Instant.day, Instant.latest, maxInterval,
      Text.int64Max] at hfits hle ⊢
    omega
  exact if_pos ⟨hpos, hfit⟩

theorem nextCronFire_eq (hparse : Cron.Expression.parse text = .ok e)
    (hafter : Instant.Representable after) :
    nextCronFire text after = (e.next after).mapError FireFailure.ofSearch := by
  simp [nextCronFire, hafter, hparse]

theorem next_of_nextCronFire (hparse : Cron.Expression.parse text = .ok e)
    (h : nextCronFire text after = .ok fire) :
    Instant.Representable after ∧ e.next after = .ok fire := by
  have hafter : Instant.Representable after := by
    by_contra hnot
    simp [nextCronFire, hnot] at h
  refine ⟨hafter, ?_⟩
  rw [nextCronFire_eq hparse hafter] at h
  cases hnext : e.next after with
  | ok t =>
    rw [hnext] at h
    cases h
    rfl
  | error failure =>
    rw [hnext] at h
    cases h

/-- The name of the policy that there is, read. -/
theorem policy_of_name (h : j.overlapPolicy = OverlapPolicy.forbid.name) :
    j.policy = .ok .forbid := by
  rw [policy, h]
  decide

theorem takeFire_of_policy (h : j.policy = .ok .forbid) (fire : Int) :
    j.takeFire fire = j.afterFire fire := by
  rw [takeFire, h]

theorem nextFire_of_takeFire {enabled : Bool} (h : j.takeFire fire = .ok (enabled, some next)) :
    j.nextFire fire = .ok next := by
  unfold takeFire at h
  split at h
  · cases h
  · unfold afterFire at h
    split at h
    · cases h
    · cases hnext : j.nextFire fire with
      | ok t =>
        rw [hnext] at h
        cases h
        rfl
      | error failure =>
        rw [hnext] at h
        cases h

/-- A job that does not go on after a fire was to fire only once. -/
theorem runOnce_of_takeFire {next : Option Int} (h : j.takeFire fire = .ok (false, next)) :
    j.runOnce = true := by
  unfold takeFire at h
  split at h
  · cases h
  · unfold afterFire at h
    split at h
    · assumption
    · cases hnext : j.nextFire fire with
      | ok t =>
        rw [hnext] at h
        cases h
      | error failure =>
        rw [hnext] at h
        cases h

end Job

namespace Cron.Expression

variable {e : Expression} {text : String} {after fire : Int}

/-- The next fire is a fire. -/
theorem fires_of_next (hparse : parse text = .ok e) (hfits : WindowFits after)
    (hnext : e.next after = .ok fire) : e.Fires fire := by
  have hstart : Instant.Representable (firstMinute after) := by
    by_contra hnot
    simp [next, hnot] at hnext
  have hreports := (next_reports hparse hstart (hfits.representable hstart)).2
  rw [hnext] at hreports
  exact hreports.1.2.2

end Cron.Expression

/-! ### Sound rows -/

/-- **A sound row**: its definition is in normal form, and its next fire was computed from it, from
an instant not later than the given one. -/
structure JobRow.Sound (r : JobRow) (now : Int) : Prop where
  /-- The schedule can be stored. -/
  schedule : Schedulable r.cronExpression r.intervalSeconds
  /-- The policy is written by its name. -/
  policy : r.overlapPolicy = OverlapPolicy.forbid.name
  /-- The next fire was computed from the definition. -/
  nextRunAt : ∀ fire, r.nextRunAt = some fire → ∃ after ≤ now, r.decode.nextFire after = .ok fire

namespace JobRow.Sound

variable {r r' : JobRow} {now t fire : Int}

theorem policy_eq (h : r.Sound now) : r.decode.policy = .ok .forbid :=
  Job.policy_of_name h.policy

/-- A fire that was computed from a cron expression is one of its fires, and representable. -/
theorem fires_of_cron (h : r.Sound now) (hfits : Cron.WindowFits now)
    (hfire : r.nextRunAt = some fire) (hle : fire ≤ now) {text : String} {e : Cron.Expression}
    (hcron : r.cronExpression = some text) (hblank : Text.trim text ≠ "")
    (hparse : Cron.Expression.parse text = .ok e) :
    e.Fires fire ∧ Instant.Representable (Cron.firstMinute fire) ∧ Instant.Representable fire := by
  -- the fire was found from an instant before it, and a window from it fits: it lies in between
  obtain ⟨after, hafter, hnext⟩ := h.nextRunAt fire hfire
  have hlt := Job.lt_nextFire hnext
  rw [Job.nextFire_of_cron hcron hblank] at hnext
  obtain ⟨hrep, hsearch⟩ := Job.next_of_nextCronFire hparse hnext
  have hlater := Cron.lt_firstMinute fire
  have hend : Cron.firstMinute fire + Cron.windowDays * Instant.day ≤ Instant.latest :=
    hfits.mono hle
  refine ⟨Cron.Expression.fires_of_next hparse (hfits.mono hafter) hsearch, ?_, ?_⟩ <;>
    simp only [Instant.Representable, Cron.windowDays, Instant.day] at hrep hend ⊢ <;>
    omega

/-- **The fire after a fire that has come** can be computed, unless that was the last one. -/
theorem nextFire_cases (h : r.Sound now) (hfits : Cron.WindowFits now)
    (hfire : r.nextRunAt = some fire) (hle : fire ≤ now) (honce : r.decode.runOnce = false) :
    (¬ r.decode.IsLastFire fire ∧ ∃ next, r.decode.nextFire fire = .ok next) ∨
      (r.decode.IsLastFire fire ∧ r.decode.nextFire fire = .error (.definition .noMatch)) := by
  have hschedule := h.schedule
  generalize hcron : r.cronExpression = cronExpression at hschedule
  generalize hseconds : r.intervalSeconds = seconds at hschedule
  cases hschedule with
  | @interval s hpos hmax =>
    refine Or.inl ⟨?_, fire + s, ?_⟩
    · rintro ⟨-, text, e, htext, -⟩
      cases htext.symm.trans hcron
    · have hinterval : r.decode.intervalSeconds = some s := hseconds
      rw [Job.nextFire_of_interval hcron, hinterval]
      exact Job.nextIntervalFire_eq (hfits.mono hle) hpos hmax
  | @cron text e hblank hparse =>
    obtain ⟨-, hstart, hrep⟩ := h.fires_of_cron hfits hfire hle hcron hblank hparse
    -- the job is to go on, so that its last fire is a matter of its expression alone
    have hlast : r.decode.IsLastFire fire ↔ e.next fire = .error .noMatch := by
      rw [Cron.Expression.next_eq_noMatch_iff_firesIn hparse hstart
        ((hfits.mono hle).representable hstart)]
      constructor
      · rintro ⟨-, text', e', htext, hparse', hempty⟩
        obtain rfl : text = text' := Option.some.inj (hcron.symm.trans htext)
        rw [hparse] at hparse'
        cases hparse'
        exact hempty
      · intro hempty
        exact ⟨honce, text, e, hcron, hparse, hempty⟩
    rw [Job.nextFire_of_cron hcron hblank, Job.nextCronFire_eq hparse hrep, hlast]
    rcases hnext : e.next fire with (_ | _) | next
    · exact Or.inr ⟨rfl, rfl⟩
    · exact absurd hnext (Cron.Expression.next_ne_outOfTime hparse (hfits.mono hle))
    · exact Or.inl ⟨by simp, next, rfl⟩

/-- **What becomes of a fire that is due**: it is taken, unless it is the last one of the job. -/
theorem takeFire_cases (h : r.Sound now) (hfits : Cron.WindowFits now)
    (hfire : r.nextRunAt = some fire) (hle : fire ≤ now) :
    (¬ r.decode.IsLastFire fire ∧ ∃ after, r.decode.takeFire fire = .ok after) ∨
      (r.decode.IsLastFire fire ∧ ∃ e, r.decode.takeFire fire = .error (.definition e)) := by
  cases honce : r.decode.runOnce with
  | true =>
    refine Or.inl ⟨fun hlast => ?_, (false, none), ?_⟩
    · cases honce.symm.trans hlast.1
    · simp [Job.takeFire_of_policy h.policy_eq, Job.afterFire, honce]
  | false =>
    have htake : r.decode.takeFire fire =
        (r.decode.nextFire fire).map fun next => (true, some next) := by
      simp [Job.takeFire_of_policy h.policy_eq, Job.afterFire, honce]
    rcases h.nextFire_cases hfits hfire hle honce with ⟨hnot, next, hnext⟩ | ⟨hlast, hnext⟩
    · exact Or.inl ⟨hnot, _, by rw [htake, hnext]; rfl⟩
    · exact Or.inr ⟨hlast, _, by rw [htake, hnext]; rfl⟩

/-- **The exception is a matter of leap days**: the last fire of a job is on a 29 February, and its
expression admits no date of a common year. -/
theorem leapDay_of_isLastFire (h : r.Sound now) (hfits : Cron.WindowFits now)
    (hfire : r.nextRunAt = some fire) (hle : fire ≤ now) (hlast : r.decode.IsLastFire fire) :
    ∃ text e, r.cronExpression = some text ∧ Cron.Expression.parse text = .ok e ∧
      ¬ e.AdmitsCommonDate ∧ (Civil.ofInstant fire).date.month = 2 ∧
      (Civil.ofInstant fire).date.dayOfMonth = 29 := by
  obtain ⟨-, text, e, hcron, hparse, hempty⟩ := hlast
  have hschedule := h.schedule
  rw [show r.cronExpression = some text from hcron] at hschedule
  generalize r.intervalSeconds = seconds at hschedule
  cases hschedule with
  | cron hblank _ =>
    obtain ⟨⟨-, hmatch⟩, -⟩ := h.fires_of_cron hfits hfire hle hcron hblank hparse
    obtain ⟨hdow, hdom, hcommon, -⟩ :=
      (Cron.Expression.firesIn_eq_empty_iff_leapDay hparse _).1 hempty
    simp only [Cron.Expression.matchesAt, Cron.Expression.admits,
      Cron.Expression.admitsDay_of_dayOfMonth hdow hdom, Bool.and_eq_true] at hmatch
    obtain ⟨hmonth, hday⟩ := Cron.Expression.leapDay_of_admitted (Date.valid_ofDay _) hcommon
      hmatch.1.1.1 hmatch.1.1.2
    exact ⟨text, e, hcron, hparse, hcommon, hmonth, hday⟩

/-! ### What keeps rows sound -/

/-- A row with the same definition is sound if its next fire is the old one or was computed anew. -/
theorem reschedule (h : r.Sound now) (hcron : r'.cronExpression = r.cronExpression)
    (hseconds : r'.intervalSeconds = r.intervalSeconds)
    (hpolicy : r'.overlapPolicy = r.overlapPolicy) (hnext : ∀ fire, r'.nextRunAt = some fire →
      r.nextRunAt = some fire ∨ ∃ after ≤ now, r.decode.nextFire after = .ok fire) :
    r'.Sound now where
  schedule := by
    rw [hcron, hseconds]
    exact h.schedule
  policy := hpolicy.trans h.policy
  nextRunAt fire hfire := by
    have hsame (after : Int) : r'.decode.nextFire after = r.decode.nextFire after := by
      simp only [Job.nextFire, Job.expression?, decode, hcron, hseconds]
    simp only [hsame]
    exact (hnext fire hfire).elim (h.nextRunAt fire) fun hnew => hnew

theorem disabled (h : r.Sound now) (t : Int) : (r.disabled t).Sound now :=
  h.reschedule rfl rfl rfl fun _ => Or.inl

theorem filled (h : r.Sound now) (ht : t ≤ now) : (r.filled t).Sound now := by
  unfold JobRow.filled
  split
  · rename_i next hnext
    refine h.reschedule rfl rfl rfl fun fire hfire => Or.inr ⟨t, ht, ?_⟩
    cases hfire
    exact hnext
  · exact h.disabled t

theorem fired (h : r.Sound now) (hle : fire ≤ now) (t : Int) : (r.fired fire t).Sound now := by
  unfold JobRow.fired
  split
  · rename_i enabled next htake
    refine h.reschedule rfl rfl rfl fun fire' hfire => Or.inr ⟨fire, hle, ?_⟩
    obtain rfl : next = some fire' := hfire
    exact Job.nextFire_of_takeFire htake
  · exact h.disabled t

theorem passed (h : r.Sound now) (ht : t ≤ now) : (r.passed t).Sound now := by
  cases hdue : r.due? t with
  | some fire =>
    rw [passed_of_due hdue]
    exact h.fired ((due?_eq_some.1 hdue).2.2.trans ht) t
  | none =>
    rw [passed_of_not_due hdue, refilled]
    split
    · exact h.filled ht
    · exact h

theorem reconciled (h : r.Sound now) (ht : t ≤ now) : (r.reconciled t).Sound now := by
  unfold JobRow.reconciled
  repeat' split
  · exact h.filled ht
  · exact h
  · exact h.disabled t
  · exact h

end JobRow.Sound

theorem JobRow.sound_ofSpec {spec : JobSpec} (h : spec.Checked) (id : String) (t now : Int) :
    (JobRow.ofSpec id spec t).Sound now where
  schedule := h.schedule
  policy := by simp [JobRow.ofSpec, h.policy]
  nextRunAt _ hfire := by cases hfire

theorem JobRow.sound_redefine {spec : JobSpec} (h : spec.Checked) (r : JobRow) (t now : Int) :
    (r.redefine spec t).Sound now where
  schedule := h.schedule
  policy := by simp [JobRow.redefine, h.policy]
  nextRunAt _ hfire := by cases hfire

/-! ### Sound stores -/

/-- **A sound store**: jobs are numbered, and their rows are sound. -/
structure Store.Sound (s : Store) (now : Int) : Prop where
  /-- The jobs are numbered. -/
  numbered : s.JobsNumbered
  /-- The rows are sound. -/
  rows : ∀ r ∈ s.jobs, r.Sound now

/-- A statement keeps stores sound: it sets no next fire, saves only what is in normal form, and
fires jobs not later than an instant. -/
def Statement.KeepsSound {α : Type} (now : Int) : Statement α → Prop
  | saveJob spec _ => spec.Checked
  | setNextRun _ _ _ => False
  | enqueue _ t => t ≤ now
  | _ => True

namespace Store.Sound

variable {s : Store} {now t : Int}

theorem updateJob (h : s.Sound now) (id : String) {f : JobRow → JobRow} (hf : ∀ r, (f r).id = r.id)
    (hsound : ∀ r ∈ s.jobs, (f r).Sound now) : (s.updateJob id f).Sound now where
  numbered := h.numbered.updateJob id hf
  rows r' hr' := by
    rcases mem_updateJob hr' with ⟨r, hr, -, rfl⟩ | ⟨hr, -⟩
    · exact hsound r hr
    · exact h.rows r' hr

theorem disableInvalid (h : s.Sound now) (id : String) (t : Int) :
    (s.disableInvalid id t).Sound now :=
  h.updateJob id (fun _ => rfl) fun r hr => (h.rows r hr).disabled t

/-- Firing a job keeps a store sound: the following fire is computed from one that has come. -/
theorem enqueue (h : s.Sound now) (id : String) (ht : t ≤ now) : (s.enqueue id t).2.Sound now := by
  obtain ⟨hsame, -⟩ | ⟨e, hdisabled⟩ |
      ⟨r, fire, enabled, next, busy, hr, rfl, hfire, hafter, -, hfired⟩ :=
    s.enqueue_cases id t
  · rw [hsame]
    exact h
  · rw [hdisabled]
    exact h.disableInvalid id t
  · refine ⟨h.numbered.run (.enqueue r.id t), ?_⟩
    rw [hfired]
    intro y hy
    rcases mem_updateJob hy with ⟨y₀, hy₀, hid, rfl⟩ | ⟨hy, -⟩
    · have hy₀' : y₀ ∈ s.jobs := hy₀
      rw [List.inj_on_of_nodup_map h.numbered.ids hy₀' hr hid]
      refine (h.rows r hr).reschedule rfl rfl rfl fun fire' hnext => ?_
      obtain rfl : next = some fire' := hnext
      obtain ⟨-, -, hle⟩ := Job.pendingFire?_eq_some hfire
      have htake : r.decode.takeFire fire = .ok (enabled, some fire') := by
        rw [Job.takeFire_of_policy (h.rows r hr).policy_eq, hafter]
      exact Or.inr ⟨fire, hle.trans ht, Job.nextFire_of_takeFire htake⟩
    · exact h.rows y hy

/-- **What statements keep.** -/
theorem run {α : Type} {st : Statement α} (h : s.Sound now) (hst : st.KeepsSound now) :
    (st.run s).2.Sound now := by
  have hruns (x : Store) (hjobs : x.jobs = s.jobs) (hx : x.JobsNumbered) : x.Sound now :=
    ⟨hx, hjobs ▸ h.rows⟩
  cases st with
  | saveJob spec t =>
    refine ⟨h.numbered.saveJob spec t, fun r hr => ?_⟩
    simp only [Statement.run, Store.saveJob] at hr
    split at hr
    · obtain ⟨r₀, hr₀, rfl⟩ := List.mem_map.1 hr
      split
      · exact JobRow.sound_redefine hst r₀ t now
      · exact h.rows r₀ hr₀
    · rcases List.mem_append.1 hr with hold | hnew
      · exact h.rows r hold
      · rw [List.mem_singleton.1 hnew]
        exact JobRow.sound_ofSpec hst _ t now
  | disableJob id t =>
    refine h.updateJob id (fun _ => rfl) fun r hr => ?_
    exact (h.rows r hr).reschedule rfl rfl rfl fun _ hfire => by cases hfire
  | deleteJob id =>
    refine ⟨h.numbered.run (.deleteJob id), fun r hr => ?_⟩
    exact h.rows r (List.mem_filter.1 hr).1
  | setNextRun id next t => exact hst.elim
  | disableInvalid id t => exact h.disableInvalid id t
  | enqueue id t =>
    have hle : t ≤ now := hst
    rw [Statement.run]
    exact h.enqueue id hle
  | claim runId t => exact hruns _ rfl (h.numbered.run (.claim runId t))
  | finish runId status error summary t =>
    exact hruns _ rfl (h.numbered.run (.finish runId status error summary t))
  | failRunning message t => exact hruns _ rfl (h.numbered.run (.failRunning message t))
  | _ => exact h

end Store.Sound

/-! ### Regular operations -/

namespace Operation

/-- **A regular operation**: it is taken up not later than an instant, and does not set a next fire
by hand. -/
def Regular (now : Int) : Operation → Prop
  | setNextRun _ _ _ => False
  | o => o.time now ≤ now

/-- What is neither a pass nor a reconciliation, and does not save a job, keeps stores sound
statement by statement. -/
def Plain : Operation → Prop
  | saveJob _ _ | tick _ | reconcile _ => False
  | _ => True

theorem only_keepsSound {o : Operation} {now : Int} (h : o.Regular now) (hplain : o.Plain) :
    o.program.Only fun _ st => st.KeepsSound now := by
  cases o with
  | saveJob spec t => exact hplain.elim
  | tick t => exact hplain.elim
  | reconcile t => exact hplain.elim
  | setNextRun id next t => exact h.elim
  | disableJob id t => exact (Management.only_onJob trivial).silent
  | deleteJob id => exact (Management.only_onJob trivial).silent
  | enqueue id t =>
    have hle : t ≤ now := h
    exact (Only.attempt hle).silent
  | claimNext t =>
    refine (Only.andThen (Only.attempt trivial) fun found => ?_).silent
    cases found with
    | none => trivial
    | some run => exact Only.andThen (Only.attempt trivial) fun _ => trivial
  | _ => exact (Only.attempt trivial).silent

end Operation

namespace Store

variable {s : Store} {now t : Int} {jobId : String} {os : List Operation}

theorem perform_saveJob_of_error {spec : JobSpec} {e : SpecError} (he : spec.validate = .error e)
    (s : Store) (t : Int) : s.perform (.saveJob spec t) = s := by
  rw [perform, Operation.program, Management.saveJob, he]
  rfl

theorem Sound.tick (h : s.Sound now) (hfits : Cron.WindowFits now) (ht : t ≤ now) :
    (s.perform (.tick t)).Sound now := by
  obtain ⟨outcomes, s', htick, hpassed⟩ := passedInto_tick h.numbered.ids (hfits.mono ht)
  rw [perform_tick, htick]
  refine ⟨hpassed.numbered h.numbered, fun r' hr' => ?_⟩
  rw [hpassed.jobs] at hr'
  obtain ⟨r, hr, rfl⟩ := List.mem_map.1 hr'
  exact (h.rows r hr).passed ht

theorem Sound.reconcile (h : s.Sound now) (hfits : Cron.WindowFits now) (ht : t ≤ now) :
    (s.perform (.reconcile t)).Sound now := by
  have hids := map_id_map (g := (·.reconciled t)) (fun _ => JobRow.reconciled_id) s.jobs
  rw [perform_reconcile, runStore_reconcile h.numbered.ids (hfits.mono ht)]
  refine ⟨h.numbered.of_sublist (by rw [hids]) rfl, fun r' hr' => ?_⟩
  obtain ⟨r, hr, rfl⟩ := List.mem_map.1 hr'
  exact (h.rows r hr).reconciled ht

/-- **Every regular operation keeps the store sound.** -/
theorem Sound.perform (h : s.Sound now) (hfits : Cron.WindowFits now) {o : Operation}
    (ho : o.Regular now) : (s.perform o).Sound now := by
  -- passes and reconciliations look at all rows first, and a specification is checked before it is
  -- saved
  by_cases hplain : o.Plain
  · exact (Operation.only_keepsSound ho hplain).keeps (I := fun x => x.Sound now)
      (fun _ _ _ hst hx => hx.run hst) h
  cases o with
  | saveJob spec t =>
    cases hv : spec.validate with
    | error e =>
      rw [perform_saveJob_of_error hv]
      exact h
    | ok v =>
      rw [perform_saveJob hv]
      have hchecked : (Statement.saveJob v t).KeepsSound now := JobSpec.checked_of_validate hv
      exact h.run hchecked
  | tick t => exact h.tick hfits ho
  | reconcile t => exact h.reconcile hfits ho
  | _ => exact absurd trivial hplain

theorem sound_empty (now : Int) : empty.Sound now :=
  ⟨identified_empty.jobsNumbered, fun _ h => nomatch h⟩

theorem sound_performAll (hos : ∀ o ∈ os, o.Regular now) (hfits : Cron.WindowFits now) :
    (empty.performAll os).Sound now := by
  have hall (s : Store) (hs : s.Sound now) : (s.performAll os).Sound now := by
    induction os generalizing s with
    | nil => exact hs
    | cons o os ih =>
      exact ih (fun o' ho' => hos o' (List.mem_cons_of_mem o ho')) _
        (hs.perform hfits (hos o List.mem_cons_self))
  exact hall empty (sound_empty now)

/-! ### What becomes of the fires that are due -/

/-- **What becomes of the fires that are due.**  After any regular operations, within representable
time, a pass ends without error, and for every job that is due it adds exactly one run, scheduled
for the fire that was due and queued or skipped, unless that fire is the last one of the job.  Then
no run is added, and the job is disabled; its expression admits no date of a common year, and the
fire is on a 29 February. -/
theorem due_fires_recorded (hos : ∀ o ∈ os, o.Regular now) (hfits : Cron.WindowFits now)
    (hdue : jobId ∈ (empty.performAll os).dueJobIds now) :
    ∃ r ∈ (empty.performAll os).jobs, r.id = jobId ∧ ∃ fire ≤ now, r.nextRunAt = some fire ∧
      ∃ outcomes s' added, (tick now).runStore (empty.performAll os) = (.ok outcomes, s') ∧
        s'.runs = (empty.performAll os).runs ++ added ∧
        (¬ r.decode.IsLastFire fire → ∃ run, added.filter (·.jobId == jobId) = [run] ∧
          run.scheduledFor = fire ∧
          (run.status = RunStatus.queued.name ∨ run.status = RunStatus.skipped.name)) ∧
        (r.decode.IsLastFire fire → added.filter (·.jobId == jobId) = [] ∧
          s'.jobs.filter (·.id == jobId) = [r.disabled now] ∧
          ∃ text e, r.cronExpression = some text ∧ Cron.Expression.parse text = .ok e ∧
            ¬ e.AdmitsCommonDate ∧ (Civil.ofInstant fire).date.month = 2 ∧
            (Civil.ofInstant fire).date.dayOfMonth = 29) := by
  have hsound := sound_performAll hos hfits
  -- from here on only soundness counts, and not how the store came about
  generalize empty.performAll os = s at hdue hsound ⊢
  obtain ⟨r, hr, rfl, henabled, fire, hle, hfire⟩ := mem_dueJobIds.1 hdue
  have hrow := hsound.rows r hr
  have hdue? : r.due? now = some fire := JobRow.due?_eq_some.2 ⟨henabled, hfire, hle⟩
  obtain ⟨outcomes, s', htick, hpassed⟩ := passedInto_tick hsound.numbered.ids hfits
  obtain ⟨added, hruns, -, hof⟩ := hpassed.runs
  obtain ⟨runId, hrun⟩ := hof r hr
  refine ⟨r, hr, rfl, fire, hle, hfire, outcomes, s', added, htick, hruns, ?_⟩
  rw [hrun, JobRow.dueRuns, hdue?]
  rcases hrow.takeFire_cases hfits hfire hle with ⟨hnot, after, htake⟩ | ⟨hlast, e, htake⟩
  · refine ⟨fun _ => ?_, fun hlast => absurd hlast hnot⟩
    simp only [JobRow.firedRuns, htake]
    refine ⟨_, rfl, Job.firedRun_scheduledFor _ _ _ _ _, ?_⟩
    cases decide (0 < s.countRunning r.id)
    · exact Or.inl rfl
    · exact Or.inr rfl
  · refine ⟨fun hnot => absurd hlast hnot, fun _ => ?_⟩
    simp only [JobRow.firedRuns, htake]
    refine ⟨trivial, ?_, hrow.leapDay_of_isLastFire hfits hfire hle hlast⟩
    rw [hpassed.row hsound.numbered.ids hr, JobRow.passed_of_due hdue?, JobRow.fired, htake]

/-- An hourly job is saved, and its first fire is computed. -/
def hourlyOperations : List Operation := [.saveJob (.interval "hourly" "true" 3600) 0, .tick 0]

/-- The first fire of the hourly job is recorded when it comes. -/
theorem due_fires_recorded_hourly :
    (∀ o ∈ hourlyOperations, o.Regular 3600) ∧ Cron.WindowFits 3600 ∧
      "job:0" ∈ (empty.performAll hourlyOperations).dueJobIds 3600 ∧
      ∃ outcomes s' added run, (tick 3600).runStore (empty.performAll hourlyOperations) =
          (.ok outcomes, s') ∧
        s'.runs = (empty.performAll hourlyOperations).runs ++ added ∧
        added.filter (·.jobId == "job:0") = [run] ∧ run.scheduledFor = 3600 ∧
        (run.status = RunStatus.queued.name ∨ run.status = RunStatus.skipped.name) := by
  have hos : ∀ o ∈ hourlyOperations, o.Regular 3600 := by
    simp [hourlyOperations, Operation.Regular, Operation.time]
  have hfits : Cron.WindowFits 3600 := by decide
  have hdue : "job:0" ∈ (empty.performAll hourlyOperations).dueJobIds 3600 := by decide +kernel
  have hrows : ∀ r ∈ (empty.performAll hourlyOperations).jobs,
      r.cronExpression = none ∧ r.nextRunAt = some 3600 := by decide +kernel
  obtain ⟨r, hr, -, fire, -, hfire, outcomes, s', added, htick, hruns, hrecorded, -⟩ :=
    due_fires_recorded hos hfits hdue
  obtain ⟨hcron, hnext⟩ := hrows r hr
  have hnot : ¬ r.decode.IsLastFire fire := by
    rintro ⟨-, text, e, htext, -⟩
    cases htext.symm.trans hcron
  obtain ⟨run, hrun, hscheduled, hstatus⟩ := hrecorded hnot
  obtain rfl : fire = 3600 := Option.some.inj (hfire.symm.trans hnext)
  exact ⟨hos, hfits, hdue, outcomes, s', added, run, htick, hruns, hrun, hscheduled, hstatus⟩

/-- A job of the 29 February is saved in 1971, and its first fire is computed. -/
def leapDayOperations : List Operation :=
  [.saveJob (.cron "leap day" "true" "0 0 29 2 *") 36633600, .tick 36633600]

/-- **Fires that are due are not always recorded**: the job of the 29 February is disabled when its
fire in 1972 comes, and no run is added. -/
theorem due_fires_not_always_recorded :
    ¬ ∀ (os : List Operation) (now : Int) (jobId : String), (∀ o ∈ os, o.Regular now) →
      ((os.map fun o => o.time now) ++ [now]).Pairwise (· ≤ ·) → Cron.WindowFits now →
      jobId ∈ (empty.performAll os).dueJobIds now →
      ∃ run, (((empty.performAll os).perform (.tick now)).runs.filter (·.jobId == jobId)) =
        (empty.performAll os).runs.filter (·.jobId == jobId) ++ [run] := by
  intro hrecorded
  have hos : ∀ o ∈ leapDayOperations, o.Regular 68169600 := by
    simp [leapDayOperations, Operation.Regular, Operation.time]
  have hdue : "job:0" ∈ (empty.performAll leapDayOperations).dueJobIds 68169600 := by decide +kernel
  obtain ⟨run, hrun⟩ :=
    hrecorded leapDayOperations 68169600 "job:0" hos (by decide) (by decide) hdue
  have hnone : ((empty.performAll leapDayOperations).perform (.tick 68169600)).runs = [] := by
    decide +kernel
  rw [hnone] at hrun
  simp at hrun

end Store

end Timetable
