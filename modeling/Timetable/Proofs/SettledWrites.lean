/-
**Writes that are settled in advance.**

What the first half of a pass writes, and what a reconciliation writes, is settled once the jobs
have been read: no answer changes it.  When a job is changed on the way, the pass goes on with what
it had read.  If what it has yet to write about that job is what it would write had it read the
changed job, then all comes to the same as if the change had come before the pass: the changed job
may be read earlier than it was, but what is written about one job goes together with what is
written about another.

Main definitions:

* `Program.Writes` — what a program performs, whatever the store;
* `Scheduler.writes`, `Scheduler.verdict` — what is written about jobs, and how it ends;
* `Scheduler.Demands` — what is written about one job.

Main results:

* `exists_mergeSort_promoted` — one element that becomes the least comes earlier, and that is all;
* `Store.Touches.runStore_promoted` — **a change that the writes go by comes before them**;
* `Store.runStore_filled_before`, `Store.runStore_reconciled_before` — the same of a pass and of a
  reconciliation.
-/

import Timetable.Proofs.Pass.Loops

set_option autoImplicit false
set_option relaxedAutoImplicit false

namespace Timetable

/-! ### What a program writes -/

namespace Program

variable {α : Type} {p q : Program α} {s x : Store} {writes way : List Access} {a : α}

/-- **What a program performs**, whatever the store that it runs on, and its answer. -/
inductive Writes {α : Type} : Program α → List Access → α → Prop where
  /-- The program is over. -/
  | done (a : α) : Writes (done a) [] a
  /-- The answer to the first statement does not depend on the store. -/
  | perform {γ : Type} {st : Statement γ} {next : Except AccessError γ → Program α}
    {answer : Except AccessError γ} {later : List Access} {a : α}
    (hanswer : ∀ s, (st.run s).1 = answer) (hlater : Writes (next answer) later a) :
    Writes (perform st next) (⟨γ, st⟩ :: later) a

namespace Writes

/-- What is performed leads to the store and to the answer. -/
theorem runStore_eq (h : p.Writes writes a) (s : Store) : p.runStore s = (a, s.through writes) := by
  induction h generalizing s with
  | done a => rfl
  | perform hanswer hlater ih =>
    rw [runStore_perform, hanswer, ih]
    rfl

/-- On the way a part has been performed, and the other part is yet to come. -/
theorem of_steps (hsteps : Steps p s way q x) (h : p.Writes writes a) :
    ∃ later, writes = way ++ later ∧ x = s.through way ∧ q.Writes later a := by
  induction hsteps generalizing writes with
  | refl p s => exact ⟨writes, rfl, rfl, h⟩
  | step rest ih =>
    cases h with
    | perform hanswer hlater =>
      rw [hanswer] at ih
      obtain ⟨later, rfl, hx, hq⟩ := ih hlater
      exact ⟨later, rfl, hx, hq⟩

/-- A program passes a test all along when what it performs does. -/
theorem along_iff {Q : (γ : Type) → Statement γ → Prop} (h : p.Writes writes a) :
    p.Along Q s ↔ ∀ b ∈ writes, Q b.1 b.2 := by
  induction h generalizing s with
  | done a => simp [Along]
  | perform hanswer hlater ih => rw [Along, hanswer, ih, List.forall_mem_cons]

end Writes

end Program

/-- A change of a job goes together with what spares the job. -/
theorem Store.Touches.through {jobId : String} {f : Store → Store} (hf : Touches jobId f)
    {writes : List Access} (h : ∀ b ∈ writes, b.2.SparesJob jobId) (s : Store) :
    (f s).through writes = f (s.through writes) := by
  induction writes generalizing s with
  | nil => rfl
  | cons b writes ih =>
    obtain ⟨hb, hwrites⟩ := List.forall_mem_cons.1 h
    have hfirst : b.apply (f s) = f (b.apply s) := congrArg Prod.snd (hf.commutes hb s)
    change (b.apply (f s)).through writes = f ((b.apply s).through writes)
    rw [hfirst, ih hwrites]

/-! ### What is written about jobs -/

namespace Scheduler

open Program

variable {needs : Job → Bool} {now : Int} {j : Job} {front back : List Job} {b w : Access}
  {jobId : String}

/-- **What is written about jobs**, one after the other: those that need one get a next fire, and
those that cannot be scheduled are disabled, until a search leaves the representable stretch of
time. -/
def writes (needs : Job → Bool) (now : Int) : List Job → List Access
  | [] => []
  | j :: rest =>
    match j.nextFire now with
    | .error .outOfTime => []
    | .error (.definition _) => ⟨Unit, .disableInvalid j.id now⟩ :: writes needs now rest
    | .ok next =>
      if needs j then ⟨Unit, .setNextRun j.id (some next) now⟩ :: writes needs now rest
      else writes needs now rest

/-- How writing about jobs ends. -/
def verdict (now : Int) : List Job → Except AccessError Unit
  | [] => .ok ()
  | j :: rest =>
    match j.nextFire now with
    | .error .outOfTime => .error .outOfTime
    | .error (.definition _) | .ok _ => verdict now rest

/-- **What is written about one job.** -/
inductive Demands (needs : Job → Bool) (now : Int) (j : Job) : Access → Prop where
  /-- The job needs a next fire, and gets it. -/
  | setNextRun {next : Int} (hneeds : needs j = true) (hnext : j.nextFire now = .ok next) :
    Demands needs now j ⟨Unit, .setNextRun j.id (some next) now⟩
  /-- The job cannot be scheduled. -/
  | disable {e : DefinitionError} (hfails : j.nextFire now = .error (.definition e)) :
    Demands needs now j ⟨Unit, .disableInvalid j.id now⟩

/-- **What a pass writes about the jobs that have no next fire.** -/
theorem writes_fillNextRuns (now : Int) (jobs : List Job) :
    (fillNextRuns now jobs).Writes (writes (fun _ => true) now jobs) (verdict now jobs) := by
  induction jobs with
  | nil => exact .done _
  | cons j rest ih =>
    rcases hnext : j.nextFire now with (e | _) | next <;>
      simp only [fillNextRuns, writes, verdict, hnext]
    · exact .perform (fun _ => rfl) ih
    · exact .done _
    · exact .perform (fun _ => rfl) ih

/-- **What a reconciliation writes about the enabled jobs.** -/
theorem writes_reconcileJobs (now : Int) (jobs : List Job) :
    (reconcileJobs now jobs).Writes (writes (isStale now) now jobs) (verdict now jobs) := by
  induction jobs with
  | nil => exact .done _
  | cons j rest ih =>
    rcases hnext : j.nextFire now with (e | _) | next <;>
      simp only [reconcileJobs, writes, verdict, hnext]
    · exact .perform (fun _ => rfl) ih
    · exact .done _
    · split
      · exact .perform (fun _ => rfl) ih
      · exact ih

/-- What a pass writes is demanded by some job. -/
theorem only_demands_fillNextRuns (now : Int) (jobs : List Job) :
    (fillNextRuns now jobs).Only fun γ st => ∃ j, Demands (fun _ => true) now j ⟨γ, st⟩ :=
  only_fillNextRuns (fun j _ _ h => ⟨j, .setNextRun rfl h⟩) fun j _ _ h => ⟨j, .disable h⟩

theorem only_demands_reconcileJobs (now : Int) (jobs : List Job) :
    (reconcileJobs now jobs).Only fun γ st => ∃ j, Demands (fun _ => true) now j ⟨γ, st⟩ :=
  only_reconcileJobs (fun j _ _ h => ⟨j, .setNextRun rfl h⟩) fun j _ _ h => ⟨j, .disable h⟩

/-- What is written is demanded by one of the jobs that were read. -/
theorem exists_demands {jobs : List Job} (hb : b ∈ writes needs now jobs) :
    ∃ j ∈ jobs, Demands needs now j b := by
  induction jobs with
  | nil => cases hb
  | cons j rest ih =>
    have hlater (h : b ∈ writes needs now rest) : ∃ k ∈ j :: rest, Demands needs now k b :=
      have ⟨k, hk, hdemands⟩ := ih h
      ⟨k, List.mem_cons_of_mem j hk, hdemands⟩
    rw [writes] at hb
    split at hb
    · cases hb
    · rename_i e hfails
      rcases List.mem_cons.1 hb with rfl | hb
      · exact ⟨j, List.mem_cons_self, .disable hfails⟩
      · exact hlater hb
    · rename_i next hnext
      split at hb
      · rename_i hneeds
        rcases List.mem_cons.1 hb with rfl | hb
        · exact ⟨j, List.mem_cons_self, .setNextRun hneeds hnext⟩
        · exact hlater hb
      · exact hlater hb

namespace Demands

/-- What is demanded by a job is about that job. -/
theorem reschedules_iff (h : Demands needs now j b) : b.2.Reschedules jobId ↔ j.id = jobId := by
  cases h <;> exact Option.some_inj

/-- What is demanded by another job spares the job. -/
theorem sparesJob (h : Demands needs now j b) (hid : j.id ≠ jobId) : b.2.SparesJob jobId := by
  cases h <;> exact hid

/-- What is demanded by a job is about that job alone. -/
theorem touches (h : Demands needs now j b) : Store.Touches j.id b.apply := by
  cases h <;> exact Store.touches_updateJob j.id fun _ => rfl

theorem writes_cons (h : Demands needs now j b) (rest : List Job) :
    writes needs now (j :: rest) = b :: writes needs now rest := by
  cases h with
  | setNextRun hneeds hnext => simp only [writes, hnext, hneeds, if_true]
  | disable hfails => simp only [writes, hfails]

theorem verdict_cons (h : Demands needs now j b) (rest : List Job) :
    verdict now (j :: rest) = verdict now rest := by
  cases h with
  | setNextRun hneeds hnext => simp only [verdict, hnext]
  | disable hfails => simp only [verdict, hfails]

end Demands

/-- Jobs whose search stays within the representable stretch of time. -/
def Fit (now : Int) (jobs : List Job) : Prop := ∀ j ∈ jobs, j.nextFire now ≠ .error .outOfTime

theorem writes_append (h : Fit now front) (back : List Job) :
    writes needs now (front ++ back) = writes needs now front ++ writes needs now back := by
  induction front with
  | nil => rfl
  | cons j front ih =>
    obtain ⟨hj, hfront⟩ := List.forall_mem_cons.1 h
    rw [List.cons_append, writes, writes]
    split
    · exact absurd ‹_› hj
    · rw [ih hfront, List.cons_append]
    · rw [ih hfront]
      split <;> rfl

theorem verdict_append (h : Fit now front) (back : List Job) :
    verdict now (front ++ back) = verdict now back := by
  induction front with
  | nil => rfl
  | cons j front ih =>
    obtain ⟨hj, hfront⟩ := List.forall_mem_cons.1 h
    rw [List.cons_append, verdict]
    split
    · exact absurd ‹_› hj
    · exact ih hfront
    · exact ih hfront

/-- When something is written about a job, the search of every job before it has stayed within the
representable stretch of time. -/
theorem fit_of_mem_writes (hfront : ∀ k ∈ front, k.id ≠ jobId) (hback : ∀ k ∈ back, k.id ≠ jobId)
    (hw : w ∈ writes needs now (front ++ j :: back)) (hself : w.2.Reschedules jobId) :
    Fit now front ∧ Demands needs now j w := by
  induction front with
  | nil =>
    have hj : ∀ k ∈ back, ¬ Demands needs now k w := fun k hk h =>
      hback k hk (h.reschedules_iff.1 hself)
    obtain ⟨k, hk, hdemands⟩ := exists_demands hw
    rcases List.mem_cons.1 hk with rfl | hk
    · exact ⟨List.forall_mem_nil _, hdemands⟩
    · exact absurd hdemands (hj k hk)
  | cons k front ih =>
    obtain ⟨hk, hfront⟩ := List.forall_mem_cons.1 hfront
    have hfits : k.nextFire now ≠ .error .outOfTime := by
      intro hout
      rw [List.cons_append, writes, hout] at hw
      cases hw
    have hkfit : Fit now [k] := fun i hi => List.mem_singleton.1 hi ▸ hfits
    have hcons : writes needs now ([k] ++ (front ++ j :: back)) =
        writes needs now [k] ++ writes needs now (front ++ j :: back) := writes_append hkfit _
    rw [List.cons_append, ← List.singleton_append, hcons] at hw
    rcases List.mem_append.1 hw with hfirst | hrest
    · obtain ⟨i, hi, hdemands⟩ := exists_demands hfirst
      rw [List.mem_singleton.1 hi] at hdemands
      exact absurd (hdemands.reschedules_iff.1 hself) hk
    · obtain ⟨hfit, hdemands⟩ := ih hfront hrest
      exact ⟨List.forall_mem_cons.2 ⟨hfits, hfit⟩, hdemands⟩

end Scheduler

/-! ### An element that becomes the least -/

section Sorting

variable {α : Type} {le : α → α → Bool} {a b a' : α}

/-- In a list without duplicates no element is both before and after another one. -/
theorem not_sublist_of_mem_after {front back : List α} (hnodup : (front ++ a :: back).Nodup)
    (hb : b ∈ back) : ¬ [b, a].Sublist (front ++ a :: back) := by
  intro hsub
  obtain ⟨-, hrest, hapart⟩ := List.nodup_append.1 hnodup
  have ha : a ∉ back := (List.nodup_cons.1 hrest).1
  obtain ⟨l₁, l₂, hl, h₁, h₂⟩ := List.sublist_append_iff.1 hsub
  cases l₁ with
  | nil =>
    obtain rfl : [b, a] = l₂ := hl
    rcases List.sublist_cons_iff.1 h₂ with h | ⟨r, hr, h⟩
    · exact ha (h.subset (by simp))
    · obtain ⟨rfl, -⟩ := List.cons.inj hr
      exact ha hb
  | cons c l₁ =>
    obtain ⟨rfl, -⟩ := List.cons.inj hl
    exact hapart b (h₁.subset List.mem_cons_self) b (List.mem_cons_of_mem a hb) rfl

/-- Leaving out one element of a list without duplicates. -/
theorem filter_ne_of_nodup [DecidableEq α] {l₁ l₂ : List α} (hnodup : (l₁ ++ a :: l₂).Nodup) :
    (l₁ ++ a :: l₂).filter (· != a) = l₁ ++ l₂ := by
  have hnot := (List.nodup_cons.1 (List.nodup_middle.1 hnodup)).1
  rw [List.filter_append, List.filter_cons_of_neg (by simp), ← List.filter_append]
  exact List.filter_eq_self.2 fun b hb => by simpa using fun h : b = a => hnot (h ▸ hb)

/-- Apart from one element, a list is sorted as the others are on their own. -/
theorem exists_mergeSort_split [DecidableEq α]
    (trans : ∀ a b c : α, le a b = true → le b c = true → le a c = true)
    (total : ∀ a b : α, (le a b || le b a) = true) {l₁ l₂ : List α}
    (hnodup : (l₁ ++ a :: l₂).Nodup) :
    ∃ before after, (l₁ ++ a :: l₂).mergeSort le = before ++ a :: after ∧
      before ++ after = (l₁ ++ l₂).mergeSort le := by
  have hperm := List.mergeSort_perm (l₁ ++ a :: l₂) le
  obtain ⟨before, after, hsplit⟩ :=
    List.append_of_mem (hperm.mem_iff.2 (by simp : a ∈ l₁ ++ a :: l₂))
  have hsorted : (before ++ a :: after).Nodup := hsplit ▸ hperm.nodup_iff.2 hnodup
  refine ⟨before, after, hsplit, ?_⟩
  rw [← filter_ne_of_nodup hsorted, ← hsplit, filter_mergeSort trans total,
    filter_ne_of_nodup hnodup]

/-- **An element that becomes the least comes earlier in the order, and that is all**: it passes
over some of the elements that were before it, and the others stay where they are. -/
theorem exists_mergeSort_promoted [DecidableEq α]
    (trans : ∀ a b c : α, le a b = true → le b c = true → le a c = true)
    (total : ∀ a b : α, (le a b || le b a) = true) (hleast : ∀ b, le a' b = true) {l₁ l₂ : List α}
    (hnodup : (l₁ ++ a :: l₂).Nodup) (hnodup' : (l₁ ++ a' :: l₂).Nodup) :
    ∃ front between back, (l₁ ++ a :: l₂).mergeSort le = front ++ (between ++ a :: back) ∧
      (l₁ ++ a' :: l₂).mergeSort le = front ++ a' :: (between ++ back) := by
  obtain ⟨before, after, hold, hsame⟩ := exists_mergeSort_split trans total hnodup
  obtain ⟨before', after', hnew, hsame'⟩ := exists_mergeSort_split trans total hnodup'
  rcases List.append_eq_append_iff.1 (hsame'.trans hsame.symm) with
    ⟨between, rfl, rfl⟩ | ⟨late, rfl, rfl⟩
  · exact ⟨before', between, after, by rw [hold, List.append_assoc], hnew⟩
  · cases late with
    | nil => exact ⟨before, [], after', by simpa using hold, by simpa using hnew⟩
    | cons b late =>
      -- an element that is no greater than the least one was before it, and so was before the other
      exfalso
      have hsorted := List.pairwise_mergeSort trans total (l₁ ++ a' :: l₂)
      rw [hnew] at hsorted
      have hble : le b a' = true :=
        (List.pairwise_append.1 hsorted).2.2 b (by simp) a' List.mem_cons_self
      have hb : b ∈ l₁ ++ l₂ := (List.mergeSort_perm _ le).mem_iff.1 (by rw [← hsame]; simp)
      rcases List.mem_append.1 hb with hb₁ | hb₂
      · have hsub : [b, a].Sublist (l₁ ++ a :: l₂) :=
          (List.singleton_sublist.2 hb₁).append (List.singleton_sublist.2 List.mem_cons_self)
        have hbefore := List.pair_sublist_mergeSort trans total (trans b a' a hble (hleast a)) hsub
        rw [hold] at hbefore
        exact not_sublist_of_mem_after (hold ▸ (List.mergeSort_perm _ le).nodup_iff.2 hnodup)
          (by simp) hbefore
      · have hsub : [a', b].Sublist (l₁ ++ a' :: l₂) :=
          ((List.singleton_sublist.2 hb₂).cons_cons a').trans (List.sublist_append_right _ _)
        have hafter := List.pair_sublist_mergeSort trans total (hleast b) hsub
        have hsplit : (l₁ ++ a' :: l₂).mergeSort le = before ++ b :: (late ++ a' :: after') := by
          rw [hnew, List.append_assoc, List.cons_append]
        rw [hsplit] at hafter
        exact not_sublist_of_mem_after (hsplit ▸ (List.mergeSort_perm _ le).nodup_iff.2 hnodup')
          (by simp) hafter

end Sorting

/-! ### A change that comes before what is written -/

/-- What comes after a part that is over, and not after one element, is that element or before
it. -/
theorem exists_split_of_mem {α : Type*} {way later before after : List α} {w : α}
    (h : before ++ w :: after = way ++ later) (hw : w ∈ later) (hafter : w ∉ after) :
    ∃ rest, before = way ++ rest := by
  rcases List.append_eq_append_iff.1 h with ⟨more, rfl, hmore⟩ | ⟨more, hmore, -⟩
  · cases more with
    | nil => exact ⟨[], by simp⟩
    | cons w' more =>
      have hlater : after = more ++ later := (List.cons.inj hmore).2
      exact absurd (hlater ▸ List.mem_append_right more hw) hafter
  · exact ⟨more, hmore⟩

namespace Store

open Program Scheduler

variable {jobId : String} {e : Store → Store} {s x : Store} {now : Int} {needs : Job → Bool}
  {way : List Access} {p p' q : Failing AccessError Unit} {j j' : Job}
  {front between back : List Job} {r : JobRow} {f : JobRow → JobRow}

/-- **A change that the writes go by comes before them.**  A job is changed on the way, and is yet
to be written about; and what is to be written about it is what the changed job demands.  Then all
comes to the same as if the changed job had been read in the first place, be it earlier than it
was. -/
theorem Touches.runStore_promoted (he : Touches jobId e)
    (hothers : ∀ k ∈ front ++ between ++ back, k.id ≠ jobId)
    (hp : p.Writes (writes needs now (front ++ (between ++ j :: back)))
      (verdict now (front ++ (between ++ j :: back))))
    (hp' : p'.Writes (writes needs now (front ++ j' :: (between ++ back)))
      (verdict now (front ++ j' :: (between ++ back))))
    (h : Steps p s way q x) (hagain : ¬ q.Along (fun _ st => ¬ st.Reschedules jobId) (e x))
    (hheeds : q.Along (fun γ st => st.Reschedules jobId → Demands needs now j' ⟨γ, st⟩) (e x)) :
    q.runStore (e x) = p'.runStore (e s) := by
  obtain ⟨later, hall, rfl, hq⟩ := Writes.of_steps h hp
  rw [hq.along_iff] at hagain hheeds
  obtain ⟨w, hw, hself⟩ : ∃ w ∈ later, w.2.Reschedules jobId := by simpa using hagain
  have hdemands' := hheeds w hw hself
  -- the write splits what is written, before the change and after it
  have hother (jobs : List Job) (hjobs : ∀ k ∈ jobs, k ∈ front ++ between ++ back) :
      ∀ b ∈ writes needs now jobs, b.2.SparesJob jobId ∧ b ≠ w := by
    intro b hb
    obtain ⟨k, hk, hdemands⟩ := exists_demands hb
    have hid := hothers k (hjobs k hk)
    exact ⟨hdemands.sparesJob hid, fun h => hid (hdemands.reschedules_iff.1 (h ▸ hself))⟩
  have hbefore := hother (front ++ between) fun k hk => List.mem_append_left back hk
  have hafter := hother back fun k hk => List.mem_append_right _ hk
  rw [← List.append_assoc] at hall hq
  obtain ⟨hfit, hdemands⟩ := fit_of_mem_writes
    (fun k hk => hothers k (List.mem_append_left back hk))
    (fun k hk => hothers k (List.mem_append_right _ hk))
    (hall ▸ List.mem_append_right way hw) hself
  have hfront : Fit now front := fun k hk => hfit k (List.mem_append_left between hk)
  have hbetween : Fit now between := fun k hk => hfit k (List.mem_append_right front hk)
  rw [writes_append hfit, hdemands.writes_cons] at hall
  rw [verdict_append hfit, hdemands.verdict_cons] at hq
  rw [writes_append hfront, hdemands'.writes_cons, writes_append hbetween, verdict_append hfront,
    hdemands'.verdict_cons, verdict_append hbetween] at hp'
  obtain ⟨rest, hrest⟩ := exists_split_of_mem hall hw fun h => (hafter w h).2 rfl
  have hway : ∀ b ∈ way, b.2.SparesJob jobId := fun b hb =>
    (hbefore b (hrest ▸ List.mem_append_left rest hb)).1
  have hover : ∀ b ∈ writes needs now between, b.2.SparesJob j'.id := by
    rw [hdemands'.reschedules_iff.1 hself]
    exact fun b hb => (hother between (fun k hk => by simp [hk]) b hb).1
  rw [hq.runStore_eq, hp'.runStore_eq]
  refine Prod.ext rfl ?_
  calc (e (s.through way)).through later
      = (e s).through (way ++ later) := by rw [← he.through hway, through_append]
    _ = ((w.apply (((e s).through (writes needs now front)).through
          (writes needs now between)))).through (writes needs now back) := by
        rw [← hall, writes_append hfront, through_append, through_append]
        rfl
    _ = (((w.apply ((e s).through (writes needs now front))).through
          (writes needs now between))).through (writes needs now back) := by
        rw [hdemands'.touches.through hover]
    _ = (e s).through (writes needs now front ++
          w :: (writes needs now between ++ writes needs now back)) := by
        rw [through_append, ← through_append]
        rfl

/-- The rows before and after one of them is changed. -/
theorem exists_jobs_split (hs : (s.jobs.map (·.id)).Nodup) (hr : r ∈ s.jobs)
    (f : JobRow → JobRow) : ∃ before after, s.jobs = before ++ r :: after ∧
      (s.updateJob r.id f).jobs = before ++ f r :: after ∧
      ∀ y ∈ before ++ after, y.id ≠ r.id := by
  obtain ⟨before, after, hjobs⟩ := List.append_of_mem hr
  refine ⟨before, after, hjobs, by rw [updateJob_of_split hs hjobs], fun y hy hid => ?_⟩
  rw [hjobs, List.map_append, List.map_cons, List.nodup_middle, ← List.map_append] at hs
  exact (List.nodup_cons.1 hs).1 (hid ▸ List.mem_map_of_mem hy)

/-- **The jobs that have no next fire, before and after one of them is changed.** -/
theorem exists_jobsWithoutNextRun_split (hs : (s.jobs.map (·.id)).Nodup) (hr : r ∈ s.jobs)
    (hmissing : r.isMissing = true) (hf : (f r).isMissing = true) :
    ∃ front back, s.jobsWithoutNextRun = front ++ r.decode :: back ∧
      (s.updateJob r.id f).jobsWithoutNextRun = front ++ (f r).decode :: back ∧
      ∀ k ∈ front ++ back, k.id ≠ r.id := by
  obtain ⟨before, after, hold, hnew, hothers⟩ := exists_jobs_split hs hr f
  refine ⟨(before.filter JobRow.isMissing).map JobRow.decode,
    (after.filter JobRow.isMissing).map JobRow.decode, ?_, ?_, ?_⟩
  · change (s.jobs.filter JobRow.isMissing).map JobRow.decode = _
    rw [hold, List.filter_append, List.filter_cons_of_pos hmissing, List.map_append, List.map_cons]
  · change ((s.updateJob r.id f).jobs.filter JobRow.isMissing).map JobRow.decode = _
    rw [hnew, List.filter_append, List.filter_cons_of_pos hf, List.map_append, List.map_cons]
  · rw [← List.map_append, ← List.filter_append]
    intro k hk
    obtain ⟨y, hy, rfl⟩ := List.mem_map.1 hk
    exact hothers y (List.mem_filter.1 hy).1

/-- The order in which enabled jobs are read: by their next fire, those without one first. -/
def firesNoLater (a b : JobRow) : Bool :=
  match a.nextRunAt, b.nextRunAt with
  | none, _ => true
  | some _, none => false
  | some x, some y => x ≤ y

theorem firesNoLater_trans (a b c : JobRow) (hab : firesNoLater a b = true)
    (hbc : firesNoLater b c = true) : firesNoLater a c = true := by
  revert hab hbc
  unfold firesNoLater
  cases a.nextRunAt <;> cases b.nextRunAt <;> cases c.nextRunAt <;> simp
  exact Int.le_trans

theorem firesNoLater_total (a b : JobRow) : (firesNoLater a b || firesNoLater b a) = true := by
  unfold firesNoLater
  cases a.nextRunAt <;> cases b.nextRunAt <;> simp
  exact Int.le_total _ _

/-- **The enabled jobs, before and after one of them is changed** so that it has no next fire: it is
read earlier. -/
theorem exists_enabledJobs_split (hs : (s.jobs.map (·.id)).Nodup) (hr : r ∈ s.jobs)
    (hon : r.enabled = 1) (hid : (f r).id = r.id) (hf : (f r).enabled = 1)
    (hcleared : (f r).nextRunAt = none) :
    ∃ front between back, s.enabledJobs = front ++ (between ++ r.decode :: back) ∧
      (s.updateJob r.id f).enabledJobs = front ++ (f r).decode :: (between ++ back) ∧
      ∀ k ∈ front ++ between ++ back, k.id ≠ r.id := by
  obtain ⟨before, after, hold, hnew, hothers⟩ := exists_jobs_split hs hr f
  have hrows {y : JobRow} (hy : y.enabled = 1) : (before ++ y :: after).filter (·.enabled == 1) =
      before.filter (·.enabled == 1) ++ y :: after.filter (·.enabled == 1) := by
    rw [List.filter_append, List.filter_cons_of_pos (by simpa using hy)]
  have hnodup {y : JobRow} (hy : y.id = r.id) :
      (before.filter (·.enabled == 1) ++ y :: after.filter (·.enabled == 1)).Nodup := by
    have hjobs : (before ++ after).Nodup :=
      (List.nodup_cons.1 (List.nodup_middle.1 (hold ▸ hs.of_map))).2
    rw [List.nodup_middle, ← List.filter_append]
    exact List.nodup_cons.2
      ⟨fun h => hothers y (List.mem_filter.1 h).1 hy, List.filter_sublist.nodup hjobs⟩
  have hleast (b : JobRow) : firesNoLater (f r) b = true := by simp [firesNoLater, hcleared]
  obtain ⟨front, between, back, hsorted, hsorted'⟩ := exists_mergeSort_promoted firesNoLater_trans
    firesNoLater_total hleast (hnodup rfl) (hnodup hid)
  refine ⟨front.map JobRow.decode, between.map JobRow.decode, back.map JobRow.decode, ?_, ?_, ?_⟩
  · change ((s.jobs.filter (·.enabled == 1)).mergeSort firesNoLater).map JobRow.decode = _
    rw [hold, hrows hon, hsorted]
    simp only [List.map_append, List.map_cons]
  · change (((s.updateJob r.id f).jobs.filter (·.enabled == 1)).mergeSort firesNoLater).map
      JobRow.decode = _
    rw [hnew, hrows hf, hsorted']
    simp only [List.map_append, List.map_cons]
  · have hperm := List.mergeSort_perm (before.filter (·.enabled == 1) ++
      r :: after.filter (·.enabled == 1)) firesNoLater
    rw [hsorted, ← List.append_assoc, List.perm_middle.congr_left, List.perm_middle.congr_right,
      List.perm_cons, ← List.filter_append] at hperm
    rw [← List.map_append, ← List.map_append]
    intro k hk
    obtain ⟨y, hy, rfl⟩ := List.mem_map.1 hk
    exact hothers y (List.mem_filter.1 (hperm.mem_iff.1 hy)).1

/-- **A change that a pass goes by comes before it**: the rest of the pass writes about the changed
job what a pass over the changed job writes. -/
theorem runStore_filled_before (hs : (s.jobs.map (·.id)).Nodup) (hr : r ∈ s.jobs)
    (hid : ∀ y, (f y).id = y.id) (hf : (f r).isMissing = true)
    (h : Steps (fillNextRuns now s.jobsWithoutNextRun) s way q x)
    (hagain : ¬ q.Along (fun _ st => ¬ st.Reschedules r.id) (x.updateJob r.id f))
    (hheeds : q.Along (fun γ st => st.Reschedules r.id →
      Demands (fun _ => true) now (f r).decode ⟨γ, st⟩) (x.updateJob r.id f)) :
    q.runStore (x.updateJob r.id f) =
      (fillNextRuns now (s.updateJob r.id f).jobsWithoutNextRun).runStore (s.updateJob r.id f) := by
  have hmissing : r.isMissing = true := by
    by_contra hnot
    have hread : ∀ j ∈ s.jobsWithoutNextRun, j.id ≠ r.id := by
      intro j hj hjid
      obtain ⟨y, hy, rfl⟩ := List.mem_map.1 hj
      obtain ⟨hy, hsel⟩ := List.mem_filter.1 hy
      exact hnot (List.inj_on_of_nodup_map hs hy hr hjid ▸ hsel)
    exact hagain ((h.only (only_others_fillNextRuns _ hread)).along _)
  obtain ⟨front, back, hold, hnew, hothers⟩ := exists_jobsWithoutNextRun_split hs hr hmissing hf
  have hp := writes_fillNextRuns now s.jobsWithoutNextRun
  have hp' := writes_fillNextRuns now (s.updateJob r.id f).jobsWithoutNextRun
  rw [hold] at hp h
  rw [hnew] at hp' ⊢
  have hothers : ∀ j ∈ front ++ [] ++ back, j.id ≠ r.id := by simpa using hothers
  exact (touches_updateJob r.id hid).runStore_promoted hothers hp hp' h hagain hheeds

/-- **A change that a reconciliation goes by comes before it.** -/
theorem runStore_reconciled_before (hs : (s.jobs.map (·.id)).Nodup) (hr : r ∈ s.jobs)
    (hid : ∀ y, (f y).id = y.id) (hf : (f r).isMissing = true)
    (h : Steps (reconcileJobs now s.enabledJobs) s way q x)
    (hagain : ¬ q.Along (fun _ st => ¬ st.Reschedules r.id) (x.updateJob r.id f))
    (hheeds : q.Along (fun γ st => st.Reschedules r.id →
      Demands (isStale now) now (f r).decode ⟨γ, st⟩) (x.updateJob r.id f)) :
    q.runStore (x.updateJob r.id f) =
      (reconcile now).runStore (s.updateJob r.id f) := by
  obtain ⟨hon', hcleared⟩ : (f r).enabled = 1 ∧ (f r).nextRunAt = none := by
    simpa [JobRow.isMissing] using hf
  have hon : r.enabled = 1 := by
    by_contra hnot
    have hread : ∀ j ∈ s.enabledJobs, j.id ≠ r.id := by
      intro j hj hjid
      obtain ⟨y, hy, rfl⟩ := List.mem_map.1 hj
      obtain ⟨hy, hsel⟩ := List.mem_filter.1 (List.mem_mergeSort.1 hy)
      exact hnot (List.inj_on_of_nodup_map hs hy hr hjid ▸ by simpa using hsel)
    exact hagain ((h.only (only_others_reconcileJobs _ hread)).along _)
  obtain ⟨front, between, back, hold, hnew, hothers⟩ :=
    exists_enabledJobs_split hs hr hon (hid r) hon' hcleared
  have hp := writes_reconcileJobs now s.enabledJobs
  have hp' := writes_reconcileJobs now (s.updateJob r.id f).enabledJobs
  rw [hold] at hp h
  rw [hnew] at hp'
  have hreads : (reconcile now).runStore (s.updateJob r.id f) =
      (reconcileJobs now (s.updateJob r.id f).enabledJobs).runStore (s.updateJob r.id f) := rfl
  rw [hreads, hnew]
  exact (touches_updateJob r.id hid).runStore_promoted hothers hp hp' h hagain hheeds

end Store

end Timetable
