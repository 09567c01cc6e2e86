/-
**How long stored texts are.**

Whatever a task returns is cut to the configured lengths before it is stored, and so is what a
worker has to say about a job that is gone.  Two texts are stored as they are: the remark on a fire
that was skipped, and the remark on a run that an earlier process left going.  This module follows
the texts of runs through everything that schedulers and workers do, and says for which settings the
configured lengths are kept.

Main definitions:

* `Outcome.Fits`, `RunRow.Fits` — texts are as long as they may be, or one of the two remarks;
* `Statement.Fits` — a statement writes only such texts;
* `Operation.OfScheduler` — what a scheduler does beside its workers;
* `Pools.TextsFit` — what the pools keep;
* `SchedulerSettings.Reaches` — **the stores that schedulers with these settings come to**.

Main results:

* `Statement.textsFit_run` — **every such statement keeps the texts of runs fitting**;
* `Pools.TextsFit.turn` — every turn of the pools keeps them fitting;
* `SchedulerSettings.stored_texts` — **which texts are stored, and when they keep to the lengths**.
-/

import Timetable.Proofs.Handouts

set_option autoImplicit false
set_option relaxedAutoImplicit false

namespace Timetable

/-! ### Texts that fit -/

/-- A text, if there is one, has at most so many characters. -/
def Text.Within (max : Nat) (text : Option String) : Prop := ∀ t ∈ text, t.length ≤ max

/-- **An outcome fits** the configured lengths. -/
structure Outcome.Fits (settings : SchedulerSettings) (o : Outcome) : Prop where
  /-- What went wrong fits. -/
  error : Text.Within settings.maxErrorChars o.error
  /-- What the task had to say fits. -/
  summary : Text.Within settings.maxSummaryChars o.summary

/-- **The texts of a run fit** the configured lengths, except that one of two remarks may stand as
the error. -/
structure RunRow.Fits (settings : SchedulerSettings) (r : RunRow) : Prop where
  /-- The summary fits. -/
  summary : Text.Within settings.maxSummaryChars r.resultSummary
  /-- The error fits, or it is a remark that fits the status. -/
  error : Text.Within settings.maxErrorChars r.error ∨
    r.status = RunStatus.skipped.name ∧ r.error = some overlapMessage ∨
    r.status = RunStatus.failed.name ∧ r.error = some Scheduler.orphanMessage

namespace Text

variable {max : Nat}

theorem within_none (max : Nat) : Within max none := fun _ h => nomatch h

theorem within_limit (h : 0 < max) (s : String) : Within max (some (limit max s)) := by
  intro t ht
  rw [← Option.some.inj ht]
  exact length_limit_le h s

theorem within_map_limit (h : 0 < max) (text : Option String) :
    Within max (text.map (limit max)) := by
  cases text with
  | none => exact within_none max
  | some s => exact within_limit h s

end Text

namespace Outcome

/-- What a task returns is stored so that it fits. -/
theorem fits_classify (c : SchedulerSettings) (context : RunContext) (result : TaskResult) :
    (classify c.normalized context result).Fits c.normalized := by
  cases result with
  | ok summary => exact ⟨Text.within_none _, Text.within_map_limit c.maxSummaryChars_pos summary⟩
  | error causes => exact ⟨Text.within_limit c.maxErrorChars_pos _, Text.within_none _⟩

/-- So is what is said about a job that is gone. -/
theorem fits_withoutJob (c : SchedulerSettings) (message : String) :
    (withoutJob c.normalized message).Fits c.normalized :=
  ⟨Text.within_limit c.maxErrorChars_pos _, Text.within_none _⟩

end Outcome

/-! ### Statements -/

/-- **A statement writes only texts that fit**, or the remark on runs that were left going. -/
def Statement.Fits (settings : SchedulerSettings) {α : Type} : Statement α → Prop
  | finish _ _ error summary _ =>
    Text.Within settings.maxErrorChars error ∧ Text.Within settings.maxSummaryChars summary
  | failRunning message _ => message = Scheduler.orphanMessage
  | _ => True

/-- The texts of all runs fit. -/
def Store.TextsFit (settings : SchedulerSettings) (s : Store) : Prop :=
  ∀ r ∈ s.runs, r.Fits settings

namespace RunRow.Fits

variable {settings : SchedulerSettings}

/-- The run of a fire has no text, or the remark on a fire that was skipped. -/
theorem firedRun (settings : SchedulerSettings) (j : Job) (busy : Bool) (id : String)
    (fire now : Int) :
    (ofRun (j.firedRun busy id fire now)).Fits settings := by
  cases busy
  · exact ⟨Text.within_none _, Or.inl (Text.within_none _)⟩
  · exact ⟨Text.within_none _, Or.inr (Or.inl ⟨rfl, rfl⟩)⟩

/-- A run that waits has no remark, so it may start. -/
theorem started {r : RunRow} (h : r.Fits settings) (hwaits : r.hasStatus .queued = true)
    (now : Int) :
    (r.started now).Fits settings := by
  refine ⟨h.summary, Or.inl ?_⟩
  have hqueued : r.status = RunStatus.queued.name := RunRow.hasStatus_iff.1 hwaits
  rcases h.error with hfits | ⟨hstatus, -⟩ | ⟨hstatus, -⟩
  · exact hfits
  · exact absurd (hqueued.symm.trans hstatus) (by decide)
  · exact absurd (hqueued.symm.trans hstatus) (by decide)

end RunRow.Fits

/-- **Every statement that writes only texts that fit keeps the texts of runs fitting.** -/
theorem Statement.textsFit_run {settings : SchedulerSettings} {α : Type} {st : Statement α}
    {s : Store}
    (hst : st.Fits settings) (h : s.TextsFit settings) : (st.run s).2.TextsFit settings := by
  intro r' hr'
  cases yields_of_mem_runs hr' with
  | kept old => exact h _ old
  | taken old waits => exact (h _ old).started waits _
  | finished => exact ⟨hst.2, Or.inl hst.1⟩
  | failed old =>
    obtain rfl : _ = Scheduler.orphanMessage := hst
    exact ⟨(h _ old).summary, Or.inr (Or.inr ⟨rfl, rfl⟩)⟩
  | fired busy => exact .firedRun settings _ busy _ _ _

/-! ### Workers -/

namespace Phase

universe u

/-- What a worker is about to store fits. -/
def Fits (settings : SchedulerSettings) : Phase → Prop
  | storing _ _ outcome => outcome.Fits settings
  | _ => True

variable {c : SchedulerSettings} {p p' : Phase}

/-- Whatever the accesses of a worker are answered, what it is about to store fits. -/
theorem fits_advance {σ : Type u}
    (answer : {γ : Type} → Statement γ → σ → Except AccessError γ × σ) (stopping : Bool) (now : Int)
    (h : p.Fits c.normalized) (s : σ) :
    (p.advance c.normalized answer stopping now s).1.Fits c.normalized := by
  cases p with
  | looking =>
    simp only [advance]
    repeat' split
    all_goals trivial
  | claiming run =>
    simp only [advance]
    split <;> trivial
  | loading run =>
    simp only [advance]
    split
    · trivial
    · exact Outcome.fits_withoutJob c _
    · exact Outcome.fits_withoutJob c _
  | storing job run outcome =>
    simp only [advance]
    repeat' split
    all_goals trivial
  | _ => exact h

theorem fits_wake (stopping : Bool) (h : p.Fits c.normalized) :
    (p.wake stopping).Fits c.normalized := by
  cases p with
  | waiting => cases stopping <;> trivial
  | _ => exact h

theorem fits_complete (context : RunContext) (result : TaskResult) (h : p.Fits c.normalized) :
    (p.complete c.normalized context result).Fits c.normalized := by
  cases p with
  | executing job run => exact Outcome.fits_classify c context result
  | _ => exact h

theorem fits_notified (h : p.Fits c.normalized) : p.notified.Fits c.normalized := by
  cases p with
  | notifying job run => trivial
  | _ => exact h

/-- What a worker stores fits. -/
theorem Moves.fits {settings : SchedulerSettings} {s : Store} {now : Int} {a : Access}
    (h : Moves s now p a p') (hp : p.Fits settings) : a.2.Fits settings := by
  cases h with
  | tell job run outcome written => exact ⟨hp.error, hp.summary⟩
  | rest stored run outcome => exact ⟨hp.error, hp.summary⟩
  | _ => trivial

end Phase

/-- **Whatever happens to a worker**, it makes at most one access, and that writes only texts that
fit; and what it is about to store afterwards fits. -/
theorem Crew.fits_event {ι ω : Type} [DecidableEq ι] [DecidableEq ω] {c : SchedulerSettings}
    (d : Crew ι ω) {w : ω} (h : (d.worker w).Fits c.normalized) (e : Event) :
    ∃ p : Phase, p.Fits c.normalized ∧
      (d.event c.normalized w e = d.move w p ∨
        ∃ a : Access, a.2.Fits c.normalized ∧
          d.event c.normalized w e = (answer w a.2 d).2.move w p) := by
  cases e with
  | wake stopping => exact ⟨_, Phase.fits_wake stopping h, Or.inl rfl⟩
  | fail e => exact ⟨_, Phase.fits_advance _ false 0 h (), Or.inl rfl⟩
  | complete context result => exact ⟨_, Phase.fits_complete context result h, Or.inl rfl⟩
  | notified => exact ⟨_, Phase.fits_notified h, Or.inl rfl⟩
  | work stopping now =>
    have hfits := Phase.fits_advance (answer w) stopping now h d
    obtain ⟨p, -, hmoved⟩ | ⟨a, p, hmoves, hmoved⟩ :=
      advance_cases c.normalized d w stopping now (d.worker w)
    · rw [hmoved] at hfits
      exact ⟨p, hfits, Or.inl (by simp only [event, turn, hmoved])⟩
    · rw [hmoved] at hfits
      exact ⟨p, hfits, Or.inr ⟨a, hmoves.fits h, by simp only [event, turn, hmoved]⟩⟩

/-! ### Schedulers -/

namespace Operation

open Program

/-- **What a scheduler does beside its workers**: jobs are saved, passes are made, single jobs are
fired, and the runs of an earlier process are recovered. -/
def OfScheduler : Operation → Prop
  | saveJob _ _ | tick _ | enqueue _ _ | recover _ => True
  | _ => False

theorem only_fits (settings : SchedulerSettings) {o : Operation} (ho : o.OfScheduler) :
    o.program.Only fun _ st => st.Fits settings := by
  cases o with
  | saveJob spec now => exact (Management.only_saveJob (fun _ _ => trivial) fun _ => trivial).silent
  | tick now =>
    exact (Scheduler.only_tick trivial (fun _ _ _ => trivial) (fun _ => trivial) trivial
      fun _ => trivial).silent
  | enqueue id now => exact (Only.attempt trivial).silent
  | recover now => exact (Only.attempt rfl).silent
  | _ => exact ho.elim

end Operation

namespace Pools

variable {ι ω : Type}

/-- The turns of schedulers and their workers. -/
def Turn.OfScheduler : Turn ι ω → Prop
  | party (.take _ o) => o.OfScheduler
  | party (.act _) | worker _ _ => True

/-- **What the pools keep**: the texts of runs fit, and so do those that are still to be written. -/
structure TextsFit (settings : SchedulerSettings) (d : Pools ι ω) : Prop where
  /-- The texts of runs fit. -/
  stored : d.store.TextsFit settings
  /-- What workers are about to store fits. -/
  workers : ∀ w, (d.worker w).Fits settings
  /-- What the other parties are about to write fits. -/
  parties : ∀ i, (d.rest i).Only fun _ st => st.Fits settings

theorem textsFit_opening (settings : SchedulerSettings) :
    (opening .empty : Pools ι ω).TextsFit settings :=
  ⟨fun _ hr => (nomatch hr), fun _ => trivial, fun _ => trivial⟩

variable [DecidableEq ι] [DecidableEq ω] {c : SchedulerSettings} {d : Pools ι ω}

namespace TextsFit

/-- What another party does keeps texts fitting. -/
theorem party (h : d.TextsFit c.normalized) {t : Timetable.Turn ι}
    (ht : (Turn.party t : Turn ι ω).OfScheduler) :
    (d.turn (fun _ => c.normalized) (.party t)).TextsFit c.normalized := by
  refine ⟨?_, h.workers, Session.only_turn h.parties fun i o hto => ?_⟩
  · obtain ⟨hstore, -⟩ | ⟨i, β, st, next, -, hrest, hturn⟩ := d.toSession.turn_cases t
    · exact hstore ▸ h.stored
    · have hst := h.parties i
      rw [hrest] at hst
      have hstored := Statement.textsFit_run hst.1 h.stored
      simp only [turn, hturn]
      exact hstored
  · subst hto
    exact Operation.only_fits c.normalized ht

/-- Whatever happens to a worker keeps texts fitting. -/
theorem worker (h : d.TextsFit c.normalized) (w : ω) (e : Crew.Event) :
    (d.turn (fun _ => c.normalized) (.worker w e)).TextsFit c.normalized := by
  obtain ⟨p, hp, hmove | ⟨a, ha, hmove⟩⟩ := d.toCrew.fits_event (h.workers w) e
  · refine ⟨?_, ?_, ?_⟩ <;> simp only [turn, goOn, hmove]
    · exact h.stored
    · exact (Function.forall_update_iff d.worker fun _ q => q.Fits c.normalized).2
        ⟨hp, fun v _ => h.workers v⟩
    · exact h.parties
  · refine ⟨?_, ?_, ?_⟩ <;> simp only [turn, goOn, hmove]
    · exact Statement.textsFit_run ha h.stored
    · exact (Function.forall_update_iff d.worker fun _ q => q.Fits c.normalized).2
        ⟨hp, fun v _ => h.workers v⟩
    · exact h.parties

/-- **Every turn keeps texts fitting.** -/
theorem turn (h : d.TextsFit c.normalized) {t : Turn ι ω} (ht : t.OfScheduler) :
    (d.turn (fun _ => c.normalized) t).TextsFit c.normalized := by
  cases t with
  | party t => exact h.party ht
  | worker w e => exact h.worker w e

/-- **All turns keep texts fitting.** -/
theorem play (h : d.TextsFit c.normalized) {turns : List (Turn ι ω)}
    (hturns : ∀ t ∈ turns, t.OfScheduler) :
    (d.play (fun _ => c.normalized) turns).TextsFit c.normalized := by
  induction turns generalizing d with
  | nil => exact h
  | cons t turns ih =>
    exact ih (h.turn (hturns t List.mem_cons_self)) fun u hu => hturns u (List.mem_cons_of_mem t hu)

end TextsFit

/-! ### Runs that carry a remark -/

variable {settings settings' : ω → SchedulerSettings}

/-- What the other parties do does not depend on the settings. -/
theorem play_party (d : Pools ι ω) (turns : List (Timetable.Turn ι)) :
    d.play settings (turns.map .party) = d.play settings' (turns.map .party) := by
  induction turns generalizing d with
  | nil => rfl
  | cons t turns ih => exact ih _

/-- Nor does it concern where the workers stand. -/
theorem worker_play_party (d : Pools ι ω) (turns : List (Timetable.Turn ι)) :
    (d.play settings (turns.map .party)).worker = d.worker := by
  induction turns generalizing d with
  | nil => rfl
  | cons t turns ih => exact ih _

/-- What a worker that is not about to load a job does next does not depend on the settings. -/
theorem turn_work (d : Pools ι ω) {w : ω} (h : ∀ run, d.worker w ≠ .loading run) (stopping : Bool)
    (now : Int) :
    d.turn settings (.worker w (.work stopping now)) =
      d.turn settings' (.worker w (.work stopping now)) := by
  have hsame : (d.worker w).advance (settings w) (Crew.answer w) stopping now d.toCrew =
      (d.worker w).advance (settings' w) (Crew.answer w) stopping now d.toCrew := by
    cases hp : d.worker w with
    | loading run => exact absurd hp (h run)
    | _ => rfl
  simp only [turn, Crew.event, Crew.turn, hsame]

/-- A worker wakes up, sees a run and claims it. -/
def claims (w : ω) (now : Int) : List (Turn ι ω) :=
  [.worker w (.wake false), .worker w (.work false now), .worker w (.work false now)]

/-- How a worker comes by a run does not depend on the settings. -/
theorem play_claims (d : Pools ι ω) {w : ω} (h : d.worker w = .waiting) (now : Int) :
    d.play settings (claims w now) = d.play settings' (claims w now) := by
  have hlooking : (d.turn settings (.worker w (.wake false))).worker w = .looking := by
    simp only [turn, goOn, Crew.event, Crew.turn, Crew.move, Function.update_self, h]
    rfl
  have hseen (run : Run) : ((d.turn settings (.worker w (.wake false))).turn settings
      (.worker w (.work false now))).worker w ≠ .loading run := by
    generalize d.turn settings (.worker w (.wake false)) = d₁ at hlooking ⊢
    simp only [turn, goOn, Crew.event, Crew.turn, Crew.move, Function.update_self, hlooking,
      Phase.advance]
    repeat' split
    all_goals simp
  have hfirst :
      (d.turn settings (.worker w (.wake false))).turn settings (.worker w (.work false now)) =
      (d.turn settings (.worker w (.wake false))).turn settings' (.worker w (.work false now)) :=
    turn_work _ (fun run => by rw [hlooking]; simp) false now
  calc d.play settings (claims w now)
      = ((d.turn settings (.worker w (.wake false))).turn settings
          (.worker w (.work false now))).turn settings' (.worker w (.work false now)) :=
        turn_work _ hseen false now
    _ = ((d.turn settings (.worker w (.wake false))).turn settings'
          (.worker w (.work false now))).turn settings' (.worker w (.work false now)) := by
        rw [hfirst]
    _ = d.play settings' (claims w now) := rfl

/-- What is done before and after a worker comes by a run does not depend on the settings either. -/
theorem play_around_claims (d : Pools ι ω) {w : ω} (h : d.worker w = .waiting) (now : Int)
    (before after : List (Timetable.Turn ι)) :
    d.play settings (before.map .party ++ claims w now ++ after.map .party) =
      d.play settings' (before.map .party ++ claims w now ++ after.map .party) := by
  have happend (settings : ω → SchedulerSettings) :
      d.play settings (before.map .party ++ claims w now ++ after.map .party) =
        ((d.play settings (before.map .party)).play settings (claims w now)).play settings
          (after.map .party) := by
    simp only [play, List.foldl_append]
  have hwaiting : (d.play settings (before.map .party)).worker w = .waiting :=
    (congrFun (worker_play_party d before) w).trans h
  have hbefore : d.play settings (before.map .party) = d.play settings' (before.map .party) :=
    play_party d before
  have hclaims : (d.play settings (before.map .party)).play settings (claims w now) =
      (d.play settings (before.map .party)).play settings' (claims w now) :=
    play_claims _ hwaiting now
  rw [happend, happend, hclaims, hbefore]
  exact play_party _ after

/-- The turns of a party that takes up operations of so many statements one after the other. -/
def takes (os : List (Operation × Nat)) : List (Timetable.Turn Unit) :=
  os.flatMap fun o => .take () o.1 :: List.replicate o.2 (.act ())

/-- A job that fires every hour: a worker takes its first run, the second fire is skipped, and then
the runs that are going are recovered. -/
def remarks : List (Turn Unit Unit) :=
  (takes [(.saveJob (.interval "report" "mail" 3600) 0, 2), (.tick 0, 3),
      (.tick 3600, 3)]).map .party ++
    claims () 3600 ++ (takes [(.enqueue "job:0" 7200, 1), (.recover 7300, 1)]).map .party

theorem ofScheduler_remarks : ∀ t ∈ remarks, t.OfScheduler := by
  simp [remarks, takes, claims, Turn.OfScheduler, Operation.OfScheduler]

/-- Whatever the settings, both remarks are stored. -/
theorem errors_remarks (settings : Unit → SchedulerSettings) :
    ((opening .empty).play settings remarks).store.runs.map (·.error) =
      [some Scheduler.orphanMessage, some overlapMessage] := by
  have husual :
      (opening .empty).play settings remarks = (opening .empty).play (fun _ => {}) remarks :=
    play_around_claims _ rfl 3600 _ _
  rw [husual]
  decide +kernel

end Pools

/-! ### The texts that are stored -/

namespace SchedulerSettings

/-- **The stores that schedulers with these settings come to**, with any number of workers and of
other parties, their statements interleaved in any way. -/
def Reaches (c : SchedulerSettings) (s : Store) : Prop :=
  ∃ (ι ω : Type) (_ : DecidableEq ι) (_ : DecidableEq ω) (turns : List (Pools.Turn ι ω)),
    (∀ t ∈ turns, t.OfScheduler) ∧
      s = ((Pools.opening .empty).play (fun _ => c.normalized) turns).store

/-- Some store has both remarks. -/
theorem exists_remarks (c : SchedulerSettings) : ∃ s, c.Reaches s ∧
    s.runs.map (·.error) = [some Scheduler.orphanMessage, some overlapMessage] := by
  refine ⟨((Pools.opening .empty).play (fun _ => c.normalized) Pools.remarks).store, ?_,
    Pools.errors_remarks fun _ => c.normalized⟩
  exact ⟨Unit, Unit, _, _, Pools.remarks, Pools.ofScheduler_remarks, rfl⟩

/-- **Which texts are stored, and when they keep to the lengths.**  Summaries always do.  An error
does, unless it is the remark on a fire that was skipped, of a run that is skipped, or the remark on
a run that an earlier process left going, of a run that failed; these are stored as they are.  So
all stored texts keep to the configured lengths exactly when there is room for the longer one of the
two remarks. -/
theorem stored_texts (c : SchedulerSettings) :
    (∀ s, c.Reaches s → ∀ r ∈ s.runs, r.Fits c.normalized) ∧
      ((∀ s, c.Reaches s → ∀ r ∈ s.runs, Text.Within c.normalized.maxErrorChars r.error ∧
          Text.Within c.normalized.maxSummaryChars r.resultSummary) ↔
        overlapMessage.length ≤ c.normalized.maxErrorChars) := by
  have hfits (s : Store) (hs : c.Reaches s) : s.TextsFit c.normalized := by
    obtain ⟨ι, ω, _, _, turns, hturns, rfl⟩ := hs
    exact ((Pools.textsFit_opening c.normalized).play hturns).stored
  refine ⟨hfits, fun h => ?_, fun hroom s hs r hr => ⟨?_, (hfits s hs r hr).summary⟩⟩
  · obtain ⟨s, hs, herrors⟩ := c.exists_remarks
    obtain ⟨r, hr, hremark⟩ : ∃ r ∈ s.runs, r.error = some overlapMessage := by
      refine List.mem_map.1 ?_
      rw [herrors]
      simp
    exact (h s hs r hr).1 overlapMessage hremark
  · have hlonger : Scheduler.orphanMessage.length ≤ overlapMessage.length := by decide
    have hremark {text : String} (hle : text.length ≤ c.normalized.maxErrorChars) :
        Text.Within c.normalized.maxErrorChars (some text) := fun t ht => Option.some.inj ht ▸ hle
    rcases (hfits s hs r hr).error with hshort | ⟨-, hskipped⟩ | ⟨-, horphan⟩
    · exact hshort
    · rw [hskipped]
      exact hremark hroom
    · rw [horphan]
      exact hremark (Nat.le_trans hlonger hroom)

/-- With room for ten characters, the remark on a run that was left going does not fit. -/
theorem not_always_within : ¬ ∀ (c : SchedulerSettings) (s : Store), c.Reaches s → ∀ r ∈ s.runs,
    Text.Within c.normalized.maxErrorChars r.error ∧
      Text.Within c.normalized.maxSummaryChars r.resultSummary := by
  intro h
  obtain ⟨s, hs, herrors⟩ := exists_remarks { maxErrorChars := 10 }
  obtain ⟨r, hr, horphan⟩ : ∃ r ∈ s.runs, r.error = some Scheduler.orphanMessage := by
    refine List.mem_map.1 ?_
    rw [herrors]
    simp
  exact absurd ((h _ s hs r hr).1 Scheduler.orphanMessage horphan) (by decide)

end SchedulerSettings

end Timetable
