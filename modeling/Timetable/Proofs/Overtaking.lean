/-
**An edit beside a pass.**

When one party passes over the jobs and another one saves a job, what matters is where the edit
falls: the pass has come some way, then the store is changed under it, and the rest of the pass goes
on with what was read before.  This module takes such a session apart into the way of the pass up to
the edit and its rest, and says when the rest of a program does to the changed store what it would
have done to the store without the change: when none of the statements it performs is about the job
that changed.

Main definitions:

* `Program.Steps` — **the way of a program** up to its rest;
* `Program.Along` — every statement that a program performs on a store passes a test;
* `Statement.Commutes` — a statement and a change of the store go together in either order;
* `Statement.SparesJob` — a statement of a pass that is about another job;
* `Store.Touches` — a change of the store that is about one job;
* `Session.duet` — two operations side by side.

Main results:

* `Program.Steps.of_bind` — the way of programs one after the other;
* `Store.Touches.runStore` — **what spares a job goes on beside a change of it**;
* `Session.play_beside_edit` — **a pass beside an edit is interrupted by it once**.
-/

import Timetable.Proofs.Session

set_option autoImplicit false
set_option relaxedAutoImplicit false

namespace Timetable

/-! ### The way of a program -/

namespace Program

variable {α β : Type} {P Q R : (γ : Type) → Statement γ → Prop}

/-- **The way of a program**: it performs statements on a store, and comes to a rest of itself on
another store. -/
inductive Steps {α : Type} : Program α → Store → List Access → Program α → Store → Prop where
  /-- The program has yet to begin. -/
  | refl (p : Program α) (s : Store) : Steps p s [] p s
  /-- The first statement is performed, and the way goes on. -/
  | step {γ : Type} {st : Statement γ} {next : Except AccessError γ → Program α} {s s' : Store}
    {way : List Access} {q : Program α}
    (rest : Steps (next (st.run s).1) (st.run s).2 way q s') :
    Steps (perform st next) s (⟨γ, st⟩ :: way) q s'

namespace Steps

variable {p q : Program α} {s s' : Store} {way : List Access}

/-- The rest of a program comes to what the program comes to. -/
theorem runStore_eq (h : Steps p s way q s') : q.runStore s' = p.runStore s := by
  induction h with
  | refl p s => rfl
  | step rest ih => exact ih

theorem only (h : Steps p s way q s') (hp : p.Only P) : q.Only P := by
  induction h with
  | refl p s => exact hp
  | step rest ih => exact ih (hp.2 _)

/-- What every statement keeps holds on the way. -/
theorem keeps {I : Store → Prop} (h : Steps p s way q s') (hp : p.Only P)
    (hkeep : ∀ γ (st : Statement γ) x, P γ st → I x → I (st.run x).2) (hs : I s) : I s' := by
  induction h with
  | refl p s => exact hs
  | step rest ih => exact ih (hp.2 _) (hkeep _ _ _ hp.1 hs)

/-- **The way of programs one after the other**: the first one is still on its way, or is over. -/
theorem of_bind {p : Program α} {f : α → Program β} {q : Program β}
    (h : Steps (p.bind f) s way q s') :
    (∃ p', Steps p s way p' s' ∧ q = p'.bind f) ∨
      ∃ later, Steps (f (p.runStore s).1) (p.runStore s).2 later q s' := by
  induction p generalizing s way with
  | done a => exact Or.inr ⟨way, h⟩
  | perform st next ih =>
    cases h with
    | refl => exact Or.inl ⟨_, .refl _ _, rfl⟩
    | step rest =>
      rcases ih _ rest with ⟨p', hp', rfl⟩ | ⟨later, hlater⟩
      · exact Or.inl ⟨p', .step hp', rfl⟩
      · exact Or.inr ⟨later, hlater⟩

/-- The way of a program whose answer is changed at the end. -/
theorem of_map {p : Program α} {g : α → β} {q : Program β}
    (h : Steps (p.bind fun a => done (g a)) s way q s') :
    ∃ p', Steps p s way p' s' ∧ q = p'.bind fun a => done (g a) := by
  induction p generalizing s way with
  | done a =>
    cases h
    exact ⟨_, .refl _ _, rfl⟩
  | perform st next ih =>
    cases h with
    | refl => exact ⟨_, .refl _ _, rfl⟩
    | step rest =>
      obtain ⟨p', hp', rfl⟩ := ih _ rest
      exact ⟨p', .step hp', rfl⟩

end Steps

/-- A program comes to its end. -/
theorem exists_steps (p : Program α) (s : Store) :
    ∃ way, Steps p s way (done (p.runStore s).1) (p.runStore s).2 := by
  induction p generalizing s with
  | done a => exact ⟨[], .refl _ _⟩
  | perform st next ih =>
    obtain ⟨way, h⟩ := ih (st.run s).1 (st.run s).2
    exact ⟨_, .step h⟩

/-- What every statement keeps holds when a program is over. -/
theorem Only.keeps {p : Program α} {s : Store} {I : Store → Prop} (hp : p.Only P)
    (hkeep : ∀ γ (st : Statement γ) x, P γ st → I x → I (st.run x).2) (hs : I s) :
    I (p.runStore s).2 := by
  obtain ⟨way, h⟩ := p.exists_steps s
  exact h.keeps hp hkeep hs

/-- **Every statement that a program performs on a store** passes a test. -/
def Along (Q : (γ : Type) → Statement γ → Prop) : Program α → Store → Prop
  | done _, _ => True
  | perform st next, s => Q _ st ∧ (next (st.run s).1).Along Q (st.run s).2

theorem along_bind {p : Program α} {f : α → Program β} {s : Store} (h : (p.bind f).Along Q s) :
    p.Along Q s := by
  induction p generalizing s with
  | done a => trivial
  | perform st next ih => exact ⟨h.1, ih _ h.2⟩

theorem Only.along {p : Program α} (h : p.Only P) (s : Store) : p.Along P s := by
  induction p generalizing s with
  | done a => trivial
  | perform st next ih => exact ⟨h.1, ih _ (h.2 _) _⟩

/-- What goes on with statements that all pass the test. -/
theorem Along.bind {p : Program α} {f : α → Program β} {s : Store} (h : p.Along Q s)
    (hf : ∀ a, (f a).Only Q) : (p.bind f).Along Q s := by
  induction p generalizing s with
  | done a => exact (hf a).along s
  | perform st next ih => exact ⟨h.1, ih _ h.2⟩

theorem Along.andThen {ε : Type} {p : Failing ε α} {f : α → Failing ε β} {s : Store}
    (h : p.Along Q s) (hf : ∀ a, (f a).Only Q) : (p.andThen f).Along Q s := by
  refine h.bind fun answer => ?_
  cases answer with
  | ok a => exact hf a
  | error e => trivial

theorem Along.mono {p : Program α} {s : Store} (h : p.Along Q s)
    (hR : ∀ γ st, Q γ st → R γ st) : p.Along R s := by
  induction p generalizing s with
  | done a => trivial
  | perform st next ih => exact ⟨hR _ _ h.1, ih _ h.2⟩

/-- Two tests together make a third one. -/
theorem Along.and {p : Program α} {s : Store} (h : p.Along Q s) (hp : p.Only P)
    (hR : ∀ γ st, P γ st → Q γ st → R γ st) : p.Along R s := by
  induction p generalizing s with
  | done a => trivial
  | perform st next ih => exact ⟨hR _ _ hp.1 h.1, ih _ h.2 (hp.2 _)⟩

end Program

/-- **A statement and a change of the store go together in either order**: the answer is the same,
and the store is. -/
def Statement.Commutes {α : Type} (f : Store → Store) (st : Statement α) : Prop :=
  ∀ s, st.run (f s) = ((st.run s).1, f (st.run s).2)

/-- A program whose statements go together with a change goes together with it. -/
theorem Program.Along.runStore {α : Type} {f : Store → Store} {p : Program α} {s : Store}
    (h : p.Along (fun _ st => st.Commutes f) (f s)) :
    p.runStore (f s) = ((p.runStore s).1, f (p.runStore s).2) := by
  induction p generalizing s with
  | done a => rfl
  | perform st next ih =>
    obtain ⟨hst, hnext⟩ := h
    rw [hst s] at hnext
    rw [runStore_perform, runStore_perform, hst s]
    exact ih _ hnext

/-! ### Changes that are about one job -/

/-- A statement of a pass that is about another job than the one with an identifier. -/
def Statement.SparesJob {α : Type} (jobId : String) : Statement α → Prop
  | setNextRun id _ _ | disableInvalid id _ | enqueue id _ => id ≠ jobId
  | _ => False

namespace Store

/-- **A change of the store that is about one job**: it leaves the runs and all other jobs alone,
and does not care what happens to other jobs. -/
structure Touches (jobId : String) (f : Store → Store) : Prop where
  /-- The runs stay. -/
  runs : ∀ s, (f s).runs = s.runs
  /-- The number of the next run stays. -/
  runSerial : ∀ s, (f s).runSerial = s.runSerial
  /-- All other jobs stay. -/
  others : ∀ s, (f s).jobs.filter (·.id != jobId) = s.jobs.filter (·.id != jobId)
  /-- Changes of another job can be made before or after. -/
  updateJob : ∀ (s : Store) (id : String) (g : JobRow → JobRow), id ≠ jobId →
    (∀ r, (g r).id = r.id) → f (s.updateJob id g) = (f s).updateJob id g
  /-- Fires can be recorded before or after. -/
  addFire : ∀ (s : Store) (run : Run), f (s.addFire run) = (f s).addFire run

/-- What changing the rows with an identifier leaves: changed rows, and all others. -/
theorem mem_updateJob {s : Store} {id : String} {g : JobRow → JobRow} {r' : JobRow}
    (h : r' ∈ (s.updateJob id g).jobs) :
    (∃ r ∈ s.jobs, r.id = id ∧ r' = g r) ∨ r' ∈ s.jobs ∧ r'.id ≠ id := by
  obtain ⟨r, hr, rfl⟩ := List.mem_map.1 h
  by_cases hid : r.id = id
  · exact Or.inl ⟨r, hr, hid, if_pos (by simpa using hid)⟩
  · rw [if_neg (by simpa using hid)]
    exact Or.inr ⟨hr, hid⟩

/-- Changing the row of a job is about that job. -/
theorem touches_updateJob (jobId : String) {g : JobRow → JobRow} (hg : ∀ r, (g r).id = r.id) :
    Touches jobId (·.updateJob jobId g) where
  runs _ := rfl
  runSerial _ := rfl
  others s := by
    simp only [Store.updateJob]
    induction s.jobs with
    | nil => rfl
    | cons r rest ih =>
      by_cases hr : r.id = jobId
      · simpa [hr, hg] using ih
      · simpa [hr] using ih
  updateJob s id g' hid hg' := by
    simp only [Store.updateJob, List.map_map]
    congr 1
    refine List.map_congr_left fun r _ => ?_
    by_cases hr : r.id = jobId
    · have hne : ¬ jobId = id := fun h => hid h.symm
      simp [hr, hg, hne]
    · by_cases hr' : r.id = id
      · simp [hr', hg', hid]
      · simp [hr, hr']
  addFire _ _ := rfl

/-- Putting a new row at the end, in place of the job, is about that job. -/
theorem touches_replace (row : JobRow) (serial : Nat) :
    Touches row.id fun s =>
      { s with jobs := s.jobs.filter (·.id != row.id) ++ [row], jobSerial := serial } where
  runs _ := rfl
  runSerial _ := rfl
  others s := by simp
  updateJob s id g hid hg := by
    have hne : ¬ row.id = id := fun h => hid h.symm
    have hkeeps : ((fun r : JobRow => r.id != row.id) ∘ fun r => if r.id = id then g r else r) =
        fun r => r.id != row.id := by
      funext r
      by_cases hr : r.id = id <;> simp [hr, hg]
    simp [Store.updateJob, List.filter_map, hkeeps, hne]
  addFire _ _ := rfl

namespace Touches

variable {jobId : String} {f : Store → Store} {s : Store}

theorem jobRow? (hf : Touches jobId f) {id : String} (hid : id ≠ jobId) :
    (f s).jobRow? id = s.jobRow? id := by
  have hfind (rows : List JobRow) :
      rows.find? (·.id == id) = (rows.filter (·.id != jobId)).find? (·.id == id) := by
    rw [List.find?_filter]
    congr 1
    funext r
    by_cases hr : r.id = id <;> simp [hr, hid]
  rw [Store.jobRow?, hfind, hf.others, ← hfind, Store.jobRow?]

theorem enqueue (hf : Touches jobId f) {id : String} (hid : id ≠ jobId) (now : Int) :
    (f s).enqueue id now = ((s.enqueue id now).1, f (s.enqueue id now).2) := by
  have hcount (id : String) : (f s).countRunning id = s.countRunning id := by
    simp only [countRunning, hf.runs]
  unfold Store.enqueue
  simp only [jobWithId?, hf.jobRow? hid]
  cases hrow : s.jobRow? id with
  | none => rfl
  | some r =>
    obtain ⟨-, rfl⟩ := jobRow?_eq_some hrow
    have hdisable : f (s.disableInvalid r.id now) = (f s).disableInvalid r.id now :=
      hf.updateJob s r.id _ hid fun _ => rfl
    have hrecord (run : Run) (enabled : Bool) (fire : Int) (next : Option Int) :
        f (({ s.addRun (RunRow.ofRun run) with runSerial := s.runSerial + 1 } : Store).recordFire
            r.id enabled fire next now) =
          ({ (f s).addRun (RunRow.ofRun run) with runSerial := s.runSerial + 1 } : Store).recordFire
            r.id enabled fire next now := by
      have h : f ((s.addFire run).recordFire r.id enabled fire next now) =
          (f (s.addFire run)).recordFire r.id enabled fire next now :=
        hf.updateJob _ r.id _ hid fun _ => rfl
      rw [hf.addFire] at h
      simpa only [Store.addFire, hf.runSerial] using h
    simp only [Option.map_some, JobRow.decode_id, hcount, hf.runSerial]
    cases r.decode.pendingFire? now with
    | none => rfl
    | some fire =>
      dsimp only
      cases r.decode.policy with
      | error e => simp only [hdisable]
      | ok policy =>
        cases policy with
        | forbid =>
          dsimp only
          cases r.decode.afterFire fire with
          | error failure =>
            cases failure with
            | outOfTime => rfl
            | definition e => simp only [hdisable]
          | ok after => exact Prod.ext rfl (hrecord _ _ _ _).symm

/-- A statement that spares a job does not care whether that job is changed before or after. -/
theorem commutes (hf : Touches jobId f) {α : Type} {st : Statement α}
    (hst : st.SparesJob jobId) : st.Commutes f := by
  intro s
  cases st with
  | setNextRun id next now =>
    have h : f (s.setNextRun id next now) = (f s).setNextRun id next now :=
      hf.updateJob s id _ hst fun _ => rfl
    exact Prod.ext rfl h.symm
  | disableInvalid id now =>
    have h : f (s.disableInvalid id now) = (f s).disableInvalid id now :=
      hf.updateJob s id _ hst fun _ => rfl
    exact Prod.ext rfl h.symm
  | enqueue id now => exact hf.enqueue hst now
  | _ => exact hst.elim

/-- **What spares a job goes on beside a change of it**: it comes to the same end, and the change
can be made before or after. -/
theorem runStore (hf : Touches jobId f) {α : Type} {p : Program α}
    (h : p.Along (fun _ st => st.SparesJob jobId) (f s)) :
    p.runStore (f s) = ((p.runStore s).1, f (p.runStore s).2) :=
  (h.mono fun _ _ hst => hf.commutes hst).runStore

end Touches

end Store

/-! ### Two operations side by side -/

namespace Session

open Program

/-- **Two operations side by side**, and whose turn it is: the first party passes over the jobs,
say, while the second one saves a job. -/
def duet (s : Store) (first second : Operation) (order : List Bool) : Session Bool :=
  (opening s).play (.take true first :: .take false second :: order.map .act)

variable {d : Session Bool} {p q : Program Reply} {order : List Bool}

/-- What the other one of two parties has to do stays. -/
theorem rest_goOn_not (d : Session Bool) (b : Bool) (p : Program Reply) :
    (d.goOn b p).rest (!b) = d.rest (!b) := Function.update_of_ne (by simp) ..

/-- Beside a party that only reads, a program comes to what it comes to alone. -/
theorem play_beside_reads (hp : d.rest true = p) (hq : d.rest false = q)
    (hreads : q.Only fun _ st => ∀ s, (st.run s).2 = s)
    (hend : (d.play (order.map .act)).AtRest) :
    (d.play (order.map .act)).store = (p.runStore d.store).2 ∧
      ∃ later, (d.play (order.map .act)).history = d.history ++ later ∧
        ∀ Q : (γ : Type) → Statement γ → Prop, (∀ a ∈ later, Q a.1 a.2) → p.Along Q d.store := by
  induction order generalizing d p q with
  | nil =>
    obtain ⟨reply, hreply⟩ := hend.exists_done true
    obtain rfl : p = .done reply := hp.symm.trans hreply
    exact ⟨rfl, [], (List.append_nil _).symm, fun _ _ => trivial⟩
  | cons b order ih =>
    rw [List.map_cons, play_cons] at hend ⊢
    cases b with
    | true =>
      cases p with
      | done reply =>
        rw [turn_act_done hp] at hend ⊢
        exact ih hp hq hreads hend
      | perform st next =>
        rw [turn_act hp] at hend ⊢
        have hp' := rest_goOn_self (d.perform st) true (next (st.run d.store).1)
        have hq' := (rest_goOn_not (d.perform st) true (next (st.run d.store).1)).trans hq
        obtain ⟨hstore, later, hhistory, halong⟩ := ih hp' hq' hreads hend
        refine ⟨hstore, ⟨_, st⟩ :: later, ?_, fun Q hQ => ⟨hQ ⟨_, st⟩ List.mem_cons_self, ?_⟩⟩
        · rw [hhistory]
          simp [goOn, Session.perform]
        · exact halong Q fun a ha => hQ a (List.mem_cons_of_mem _ ha)
    | false =>
      cases q with
      | done reply =>
        rw [turn_act_done hq] at hend ⊢
        exact ih hp hq hreads hend
      | perform st next =>
        have hsame : (d.perform st).store = d.store := hreads.1 d.store
        rw [turn_act hq] at hend ⊢
        have hp' := (rest_goOn_not (d.perform st) false (next (st.run d.store).1)).trans hp
        have hq' := rest_goOn_self (d.perform st) false (next (st.run d.store).1)
        obtain ⟨hstore, later, hhistory, halong⟩ := ih hp' hq' (hreads.2 _) hend
        refine ⟨hstore.trans (by rw [← hsame]; rfl), ⟨_, st⟩ :: later, ?_, fun Q hQ => ?_⟩
        · rw [hhistory]
          simp [goOn, Session.perform]
        · rw [← hsame]
          exact halong Q fun a ha => hQ a (List.mem_cons_of_mem _ ha)

/-- **A program beside an edit is interrupted by it once.** -/
theorem play_beside_edit {spec : JobSpec} {t : Int} {next : Except AccessError Unit → Program Reply}
    (hp : d.rest true = p) (hq : d.rest false = .perform (.saveJob spec t) next)
    (hreads : ∀ answer, (next answer).Only fun _ st => ∀ s, (st.run s).2 = s)
    (hend : (d.play (order.map .act)).AtRest) :
    ∃ way q x later, Steps p d.store way q x ∧
      (d.play (order.map .act)).store = (q.runStore (x.saveJob spec t)).2 ∧
      (d.play (order.map .act)).history =
        d.history ++ way ++ (⟨Unit, .saveJob spec t⟩ :: later) ∧
      ∀ Q : (γ : Type) → Statement γ → Prop, (∀ a ∈ later, Q a.1 a.2) →
        q.Along Q (x.saveJob spec t) := by
  induction order generalizing d p with
  | nil =>
    obtain ⟨reply, hreply⟩ := hend.exists_done false
    cases hq.symm.trans hreply
  | cons b order ih =>
    rw [List.map_cons, play_cons] at hend ⊢
    cases b with
    | true =>
      cases p with
      | done reply =>
        rw [turn_act_done hp] at hend ⊢
        exact ih hp hq hend
      | perform st next' =>
        rw [turn_act hp] at hend ⊢
        have hp' := rest_goOn_self (d.perform st) true (next' (st.run d.store).1)
        have hq' := (rest_goOn_not (d.perform st) true (next' (st.run d.store).1)).trans hq
        obtain ⟨way, q, x, later, hway, hstore, hhistory, halong⟩ := ih hp' hq' hend
        refine ⟨⟨_, st⟩ :: way, q, x, later, .step hway, hstore, ?_, halong⟩
        rw [hhistory]
        simp [goOn, Session.perform]
    | false =>
      rw [turn_act hq] at hend ⊢
      have hp' := (rest_goOn_not (d.perform (.saveJob spec t)) false (next (.ok ()))).trans hp
      have hq' := rest_goOn_self (d.perform (.saveJob spec t)) false (next (.ok ()))
      obtain ⟨hstore, later, hhistory, halong⟩ := play_beside_reads hp' hq' (hreads _) hend
      refine ⟨[], p, d.store, later, .refl _ _, hstore, hhistory.trans ?_, halong⟩
      simp [goOn, Session.perform]

/-- Saving a job is one statement, and a look at what it did. -/
theorem exists_call_saveJob {spec v : JobSpec} (hv : spec.validate = .ok v) (t : Int) :
    ∃ next, (Operation.saveJob spec t).call = .perform (.saveJob v t) next ∧
      ∀ answer, (next answer).Only fun _ st => ∀ s, (st.run s).2 = s := by
  have hprogram : ∃ next : Except AccessError Unit → Program Unit,
      (Operation.saveJob spec t).program = .perform (.saveJob v t) next ∧
        ∀ answer, (next answer).Only fun _ st => ∀ s, (st.run s).2 = s := by
    simp only [Operation.program, Management.saveJob, hv]
    refine ⟨_, rfl, fun answer => ?_⟩
    cases answer with
    | error e => trivial
    | ok u =>
      refine ⟨fun s => rfl, fun found => ?_⟩
      rcases found with e | _ | job <;> trivial
  obtain ⟨next, hnext, hreads⟩ := hprogram
  refine ⟨fun answer => (next answer).bind fun _ => .done .nothing, ?_, fun answer => ?_⟩
  · simp only [Operation.call, hnext, Program.bind]
  · exact (hreads answer).bind fun _ => trivial

end Session

end Timetable
