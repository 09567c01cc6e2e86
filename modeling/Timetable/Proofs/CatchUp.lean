/-
**Late passes catch up.**

A pass that comes late finds a next fire that has been due for a while, takes it, and computes the
following one from that fire and not from the clock.  So the fires of a job that goes on are taken
in order, one in each pass that finds one due, with none left out and none taken twice; and since
every fire lies after the one before, finitely many passes at one time bring the job to rest.

Main definitions:

* `Statement.Elsewhere` — a statement is about other jobs, or about runs;
* `JobRow.FiresAt` — a job that goes on fires at the times of a sequence, as far as an instant;
* `Event` — a pass, or an access of anyone, and `firesBy` — how many fires have been taken after
  events;
* `Store.FiredTo` — a number of fires of a job have been taken, in order.

Main results:

* `Store.FiredTo.tick`, `Store.FiredTo.meet` — what a pass and any events keep;
* `Store.fires_caught_up` — **late passes catch up without gap or repeat**.
-/

import Timetable.Proofs.Pass.Loops

set_option autoImplicit false
set_option relaxedAutoImplicit false

namespace Timetable

open Program Scheduler

/-! ### Accesses that are about something else -/

namespace Statement

/-- **A statement is about other jobs**, or about runs. -/
def Elsewhere {α : Type} (r : JobRow) : Statement α → Prop
  | saveJob spec _ => spec.name ≠ r.name
  | disableJob id _ | deleteJob id | setNextRun id _ _ | disableInvalid id _ | enqueue id _ =>
    id ≠ r.id
  | _ => True

variable {α : Type} {s : Store} {r : JobRow} {st : Statement α}

/-- What is about something else leaves a row and its fires alone. -/
theorem Elsewhere.keeps (h : st.Elsewhere r) (hr : r ∈ s.jobs) :
    r ∈ (st.run s).2.jobs ∧ (st.run s).2.firesOf r.id = s.firesOf r.id := by
  have hupdate (x : Store) (hx : r ∈ x.jobs) {id : String} (f : JobRow → JobRow) (hid : id ≠ r.id) :
      r ∈ (x.updateJob id f).jobs :=
    List.mem_map.2 ⟨r, hx, if_neg (by simpa using Ne.symm hid)⟩
  cases st with
  | saveJob spec now =>
    refine ⟨?_, ?_⟩
    · simp only [run, Store.saveJob]
      split
      · exact List.mem_map.2 ⟨r, hr, if_neg (by simpa using Ne.symm h)⟩
      · exact List.mem_append_left _ hr
    · simp only [run, Store.saveJob]
      split <;> rfl
  | disableJob id now => exact ⟨hupdate s hr _ h, rfl⟩
  | deleteJob id =>
    refine ⟨List.mem_filter.2 ⟨hr, by simpa using Ne.symm h⟩, ?_⟩
    exact s.firesOf_deleteJob_of_ne (Ne.symm h)
  | setNextRun id next now => exact ⟨hupdate s hr _ h, rfl⟩
  | disableInvalid id now => exact ⟨hupdate s hr _ h, rfl⟩
  | enqueue id now =>
    obtain ⟨hsame, -⟩ | ⟨e, hdisabled⟩ | ⟨y, fire, enabled, next, busy, -, rfl, -, -, -, hfired⟩ :=
      s.enqueue_cases id now
    · simp only [run, hsame]
      exact ⟨hr, trivial⟩
    · simp only [run, hdisabled]
      exact ⟨hupdate s hr _ h, rfl⟩
    · simp only [run, hfired]
      refine ⟨hupdate (s.addFire _) hr _ h, (s.firesOf_addFire _ r.id).trans ?_⟩
      rw [Job.firedRun_jobId, JobRow.decode_id, if_neg h, List.append_nil]
  | claim runId now =>
    exact ⟨hr, s.firesOf_updateRuns _ (fun _ => by rfl) (fun _ => by rfl) r.id⟩
  | finish runId status error summary now =>
    exact ⟨hr, s.firesOf_updateRuns _ (fun _ => by rfl) (fun _ => by rfl) r.id⟩
  | failRunning message now =>
    exact ⟨hr, s.firesOf_updateRuns _ (fun _ => by rfl) (fun _ => by rfl) r.id⟩
  | _ => exact ⟨hr, rfl⟩

end Statement

/-! ### The fires of a job -/

/-- When one more time of a sequence has come. -/
theorem forall_le_of_forall_lt {f : Nat → Int} {n : Nat} {now : Int} (hn : ∀ j < n, f j ≤ now)
    (hle : f n ≤ now) : ∀ j ≤ n, f j ≤ now :=
  fun j hj => Nat.forall_lt_succ_right.2 ⟨hn, hle⟩ j (Nat.lt_succ_of_le hj)

/-- **A job that goes on fires at the times of a sequence**, as far as an instant: its next fire is
the first of them, and while all fires so far have come, the next one can be computed from the
last. -/
structure JobRow.FiresAt (r : JobRow) (f : Nat → Int) (now : Int) : Prop where
  /-- The job is enabled. -/
  enabled : r.enabled = 1
  /-- The job does not stop after a fire. -/
  runOnce : r.decode.runOnce = false
  /-- The policy of the job is known. -/
  policy : r.decode.policy = .ok .forbid
  /-- The first fire is the next one. -/
  nextRunAt : r.nextRunAt = some (f 0)
  /-- Each fire comes from the one before. -/
  nextFire : ∀ i, (∀ j ≤ i, f j ≤ now) → r.decode.nextFire (f i) = .ok (f (i + 1))

/-- The row of a job when a number of its fires have been taken. -/
def JobRow.afterFires (r : JobRow) (f : Nat → Int) (n : Nat) (updatedAt : Int) : JobRow :=
  { r with
    lastRunAt := match n with
      | 0 => r.lastRunAt
      | i + 1 => some (f i)
    nextRunAt := some (f n)
    updatedAt }

namespace JobRow.FiresAt

variable {r : JobRow} {f : Nat → Int} {n : Nat} {now t u : Int}

theorem lt_succ (h : r.FiresAt f now) {i : Nat} (hi : ∀ j ≤ i, f j ≤ now) : f i < f (i + 1) :=
  Job.lt_nextFire (h.nextFire i hi)

/-- **Some fire lies ahead**, since each one lies after the one before. -/
theorem exists_ahead (h : r.FiresAt f now) : ∃ k, (∀ i < k, f i ≤ now) ∧ now < f k := by
  have hsome : ∃ k, now < f k := by
    by_contra hnone
    -- if all fires lay behind, the one of number `i` would still be `i` seconds after the first
    have hall : ∀ i, f i ≤ now := fun i => Int.not_lt.1 fun hi => hnone ⟨i, hi⟩
    have hfar (i : Nat) : f 0 + i ≤ f i := by
      induction i with
      | zero => simp
      | succ i ih =>
        have := h.lt_succ fun j (_ : j ≤ i) => hall j
        push_cast
        omega
    have hbeyond := hfar ((now - f 0).toNat + 1)
    have hle := hall ((now - f 0).toNat + 1)
    push_cast at hbeyond
    omega
  exact ⟨Nat.find hsome, fun i hi => Int.not_lt.1 (Nat.find_min hsome hi), Nat.find_spec hsome⟩

/-- A fire that has come is taken, and the following one is computed from it. -/
theorem takeFire (h : r.FiresAt f now) (hn : ∀ j ≤ n, f j ≤ now) :
    (r.afterFires f n u).decode.takeFire (f n) = .ok (true, some (f (n + 1))) := by
  have hnext : (r.afterFires f n u).decode.nextFire (f n) = .ok (f (n + 1)) := h.nextFire n hn
  have hpolicy : (r.afterFires f n u).decode.policy = .ok .forbid := h.policy
  have honce : (r.afterFires f n u).decode.runOnce = false := h.runOnce
  simp [Job.takeFire, Job.afterFire, hpolicy, honce, hnext, Except.map]

theorem due?_eq (h : r.FiresAt f now) :
    (r.afterFires f n u).due? t = if f n ≤ t then some (f n) else none := by
  simp [JobRow.due?, JobRow.afterFires, h.enabled, Option.filter]

/-- **A pass that finds a fire due takes it.** -/
theorem passed_of_le (h : r.FiresAt f now) (hn : ∀ j ≤ n, f j ≤ now) (hle : f n ≤ t) :
    (r.afterFires f n u).passed t = r.afterFires f (n + 1) (max u t) := by
  have hdue : (r.afterFires f n u).due? t = some (f n) := h.due?_eq.trans (if_pos hle)
  rw [passed_of_due hdue, fired, h.takeFire hn]
  simp [afterFires, touch, flagNumber, h.enabled]

/-- A pass that comes before a fire leaves the row alone. -/
theorem passed_of_lt (hlt : t < f n) : (r.afterFires f n u).passed t = r.afterFires f n u :=
  (passed_of_idle (Or.inr ⟨f n, rfl, hlt⟩)).2

/-- The run of a fire that is taken is scheduled for that fire. -/
theorem dueRuns_eq (h : r.FiresAt f now) (hn : ∀ j < n, f j ≤ now) (ht : t ≤ now) (busy : Bool)
    (runId : String) :
    ((r.afterFires f n u).dueRuns busy runId t).map (·.scheduledFor) =
      if f n ≤ t then [f n] else [] := by
  rw [dueRuns, h.due?_eq]
  by_cases hle : f n ≤ t
  · have hall := forall_le_of_forall_lt hn (hle.trans ht)
    simp [hle, firedRuns, h.takeFire hall, RunRow.ofRun]
  · simp [hle]

end JobRow.FiresAt

/-! ### Passes and other events -/

/-- **What happens to a store**: a pass over the jobs, or an access of anyone. -/
inductive Event : Type 1 where
  /-- A pass at a time. -/
  | pass (now : Int)
  /-- A statement of someone else. -/
  | access (a : Access)

/-- What an event does to the store. -/
def Event.apply : Event → Store → Store
  | pass now, s => ((tick now).runStore s).2
  | access a, s => a.apply s

/-- A pass that is not later than an instant, or an access that is about something else. -/
def Event.Spares (r : JobRow) (now : Int) : Event → Prop
  | pass t => t ≤ now
  | access a => a.2.Elsewhere r

/-- **How many fires of a sequence have been taken** after events: one in every pass at whose time
the next one is due. -/
def firesBy (f : Nat → Int) : Nat → List Event → Nat
  | n, [] => n
  | n, .pass t :: events => firesBy f (if f n ≤ t then n + 1 else n) events
  | n, .access _ :: events => firesBy f n events

namespace Store

/-- The store after events. -/
def meet (s : Store) (events : List Event) : Store := events.foldl (fun s e => e.apply s) s

variable {s s₀ : Store} {r : JobRow} {f : Nat → Int} {n k : Nat} {now t : Int} {events : List Event}

theorem meet_append (s : Store) (events more : List Event) :
    s.meet (events ++ more) = (s.meet events).meet more := by
  simp only [meet, List.foldl_append]

/-- **A number of fires of a job have been taken**, in order. -/
structure FiredTo (s₀ : Store) (r : JobRow) (f : Nat → Int) (n : Nat) (s : Store) : Prop where
  /-- The jobs are numbered. -/
  numbered : s.JobsNumbered
  /-- The row of the job stands at the next fire. -/
  row : ∃ u, r.afterFires f n u ∈ s.jobs
  /-- The fires that have been taken are on record, in order. -/
  fires : s.firesOf r.id = s₀.firesOf r.id ++ (List.range n).map f

namespace FiredTo

theorem start (hs : s.JobsNumbered) (hr : r ∈ s.jobs) (h : r.FiresAt f now) :
    s.FiredTo r f 0 s where
  numbered := hs
  row := by
    refine ⟨r.updatedAt, ?_⟩
    have hrow : r.afterFires f 0 r.updatedAt = r := by
      simp only [JobRow.afterFires, ← h.nextRunAt]
    rwa [hrow]
  fires := by simp

/-- **What a pass keeps**: it takes a fire if one is due. -/
theorem tick (h : s₀.FiredTo r f n s) (hr : r.FiresAt f now) (hfits : Cron.WindowFits now)
    (hn : ∀ j < n, f j ≤ now) (ht : t ≤ now) :
    s₀.FiredTo r f (if f n ≤ t then n + 1 else n) ((Event.pass t).apply s) := by
  obtain ⟨u, hrow⟩ := h.row
  obtain ⟨outcomes, s', htick, hpassed⟩ := passedInto_tick h.numbered.ids (hfits.mono ht)
  have hs' : (Event.pass t).apply s = s' := congrArg Prod.snd htick
  have hstands : (r.afterFires f n u).passed t ∈ s'.jobs := by
    rw [hpassed.jobs]
    exact List.mem_map_of_mem hrow
  obtain ⟨runId, hruns⟩ := hpassed.runs_of hrow
  have hfires : s'.firesOf r.id = s.firesOf r.id ++ if f n ≤ t then [f n] else [] := by
    rw [firesOf, firesOf, ← hr.dueRuns_eq hn ht (0 < s.countRunning r.id) runId, ← List.map_append]
    exact congrArg _ hruns
  rw [hs']
  refine ⟨hpassed.numbered h.numbered, ?_, ?_⟩
  · by_cases hle : f n ≤ t
    · have hall := forall_le_of_forall_lt hn (hle.trans ht)
      rw [hr.passed_of_le hall hle] at hstands
      rw [if_pos hle]
      exact ⟨_, hstands⟩
    · rw [JobRow.FiresAt.passed_of_lt (Int.not_le.1 hle)] at hstands
      rw [if_neg hle]
      exact ⟨u, hstands⟩
  · rw [hfires, h.fires]
    by_cases hle : f n ≤ t
    · simp [hle, List.range_succ]
    · simp [hle]

/-- What is about something else takes no fire. -/
theorem access (h : s₀.FiredTo r f n s) {a : Access} (ha : a.2.Elsewhere r) :
    s₀.FiredTo r f n (a.apply s) := by
  obtain ⟨u, hrow⟩ := h.row
  have ha' : a.2.Elsewhere (r.afterFires f n u) := ha
  obtain ⟨hstands, hfires⟩ := ha'.keeps hrow
  exact ⟨h.numbered.run a.2, ⟨u, hstands⟩, Eq.trans hfires h.fires⟩

/-- **What any events keep.** -/
theorem meet (h : s₀.FiredTo r f n s) (hr : r.FiresAt f now) (hfits : Cron.WindowFits now)
    (hn : ∀ j < n, f j ≤ now) (hevents : ∀ e ∈ events, e.Spares r now) :
    s₀.FiredTo r f (firesBy f n events) (s.meet events) ∧
      ∀ j < firesBy f n events, f j ≤ now := by
  -- the number of fires taken goes along with the events, and stays behind `now`
  induction events generalizing n s with
  | nil => exact ⟨h, hn⟩
  | cons e events ih =>
    have hrest := fun e he => hevents e (List.mem_cons_of_mem _ he)
    have hfirst := hevents e List.mem_cons_self
    cases e with
    | pass t =>
      refine ih (h.tick hr hfits hn hfirst) (fun j hj => ?_) hrest
      split at hj
      · rename_i hle
        exact forall_le_of_forall_lt hn (hle.trans hfirst) j (Nat.le_of_lt_succ hj)
      · exact hn j hj
    | access a => exact ih (h.access hfirst) hn hrest

end FiredTo

/-! ### Coming to rest -/

/-- A job whose next fire lies ahead is left alone by any number of passes. -/
theorem meet_idle {q : JobRow} (hs : s.JobsNumbered) (hfits : Cron.WindowFits now) (hq : q ∈ s.jobs)
    (hidle : ∃ fire, q.nextRunAt = some fire ∧ now < fire) (m : Nat) :
    (s.meet (List.replicate m (.pass now))).jobs.filter (·.id == q.id) = [q] ∧
      (s.meet (List.replicate m (.pass now))).runs.filter (·.jobId == q.id) =
        s.runs.filter (·.jobId == q.id) := by
  induction m generalizing s with
  | zero => exact ⟨filter_id hs.ids hq, rfl⟩
  | succ m ih =>
    obtain ⟨outcomes, x, htick, hpassed⟩ := passedInto_tick hs.ids hfits
    obtain ⟨hdue, hstays⟩ := JobRow.passed_of_idle (Or.inr hidle)
    have hx : s.meet (List.replicate (m + 1) (.pass now)) =
        x.meet (List.replicate m (.pass now)) :=
      congrArg (fun y : Store => y.meet (List.replicate m (.pass now))) (congrArg Prod.snd htick)
    have hqx : q ∈ x.jobs := by
      rw [hpassed.jobs]
      exact List.mem_map.2 ⟨q, hq, hstays⟩
    obtain ⟨runId, hruns⟩ := hpassed.runs_of hq
    rw [JobRow.dueRuns, hdue, List.append_nil] at hruns
    rw [hx, ← hruns]
    exact ih (hpassed.numbered hs) hqx

/-- Passes at one time take the fires up to that time, one each. -/
theorem firesBy_replicate (hk : ∀ i < k, f i ≤ now) (hahead : now < f k) (hn : n ≤ k) (m : Nat) :
    firesBy f n (List.replicate m (.pass now)) = min (n + m) k := by
  induction m generalizing n with
  | zero => simp [firesBy, hn]
  | succ m ih =>
    rw [List.replicate_succ, firesBy]
    rcases Nat.lt_or_eq_of_le hn with hlt | rfl
    · rw [if_pos (hk n hlt), ih hlt]
      congr 1
      omega
    · rw [if_neg (Int.not_le.2 hahead), ih (Nat.le_refl n)]
      omega

/-- **Late passes catch up without gap or repeat.**  Let a job that goes on fire at the times of a
sequence as far as an instant `now` in representable time.  Then some fire, the first such being
number `k`, lies ahead of `now`.  After any events, which are passes not later than `now` and
accesses about other jobs or about runs, the fires that have been put on record are the first ones
in order, one for each pass at whose time the next one was due.  And once there have been `k` passes
more at `now`, or any larger number of them, the row of the job stands at the fire that lies ahead,
with the one before as its last, and neither the row nor the runs of the job change any more. -/
theorem fires_caught_up (hs : s.JobsNumbered) (hfits : Cron.WindowFits now) (hr : r ∈ s.jobs)
    (hfires : r.FiresAt f now) (hevents : ∀ e ∈ events, e.Spares r now) :
    ∃ k, (∀ i < k, f i ≤ now) ∧ now < f k ∧ firesBy f 0 events ≤ k ∧
      (s.meet events).firesOf r.id =
        s.firesOf r.id ++ (List.range (firesBy f 0 events)).map f ∧
      (∃ q ∈ (s.meet events).jobs, q.id = r.id ∧ q.nextRunAt = some (f (firesBy f 0 events))) ∧
      ∃ q runs, q.nextRunAt = some (f k) ∧ (∀ i, k = i + 1 → q.lastRunAt = some (f i)) ∧
        runs.map (·.scheduledFor) = s.firesOf r.id ++ (List.range k).map f ∧
        ∀ m, k ≤ m →
          ((s.meet events).meet (List.replicate m (.pass now))).jobs.filter (·.id == r.id) = [q] ∧
            ((s.meet events).meet (List.replicate m (.pass now))).runs.filter (·.jobId == r.id) =
              runs := by
  obtain ⟨k, hk, hahead⟩ := hfires.exists_ahead
  obtain ⟨htaken, hbehind⟩ :=
    (FiredTo.start hs hr hfires).meet hfires hfits (fun _ hj => absurd hj (Nat.not_lt_zero _))
      hevents
  have hle : firesBy f 0 events ≤ k :=
    Nat.le_of_not_lt fun hlt => absurd (hbehind k hlt) (Int.not_le.2 hahead)
  refine ⟨k, hk, hahead, hle, htaken.fires, ?_, ?_⟩
  · obtain ⟨u, hrow⟩ := htaken.row
    exact ⟨_, hrow, rfl, rfl⟩
  -- after `k` passes at `now` the job has come to rest
  have hpasses : ∀ e ∈ List.replicate k (Event.pass now), e.Spares r now := by
    intro e he
    rw [List.eq_of_mem_replicate he]
    exact le_refl now
  obtain ⟨hrest, -⟩ := htaken.meet hfires hfits hbehind hpasses
  have hcount : min (firesBy f 0 events + k) k = k := Nat.min_eq_right (Nat.le_add_left _ _)
  rw [firesBy_replicate hk hahead hle k, hcount] at hrest
  obtain ⟨u, hrow⟩ := hrest.row
  refine ⟨r.afterFires f k u, _, rfl, ?_, hrest.fires, ?_⟩
  · rintro i rfl
    rfl
  · intro m hm
    obtain ⟨j, rfl⟩ := Nat.exists_eq_add_of_le hm
    rw [List.replicate_add, meet_append]
    exact meet_idle hrest.numbered hfits hrow ⟨f k, rfl, hahead⟩ j

/-- The row of an hourly job with a next fire. -/
def hourlyRow (fire : Int) : JobRow :=
  { JobRow.ofSpec "job:0" (.interval "hourly" "true" 3600) 0 with nextRunAt := some fire }

/-- The store with that job. -/
def hourlyFrom (fire : Int) : Store :=
  (empty.saveJob (.interval "hourly" "true" 3600) 0).setNextRun "job:0" (some fire) 0

theorem jobsNumbered_hourlyFrom (fire : Int) : (hourlyFrom fire).JobsNumbered :=
  (identified_empty.jobsNumbered.saveJob _ 0).updateJob _ fun _ => rfl

/-- The hourly job fires every hour, as long as its fires can be numbered. -/
theorem firesAt_hourlyRow {fire : Int} (hnow : now + 3600 ≤ Text.int64Max) :
    (hourlyRow fire).FiresAt (fun i => fire + 3600 * i) now where
  enabled := rfl
  runOnce := rfl
  policy := (by decide : OverlapPolicy.parse "forbid" = .ok .forbid)
  nextRunAt := by simp [hourlyRow]
  nextFire i hi := by
    have hle := hi i (Nat.le_refl i)
    have hfit : fire + 3600 * (i : Int) + 3600 ≤ Text.int64Max := by omega
    have hnext : (hourlyRow fire).decode.nextFire (fire + 3600 * i) =
        Job.nextIntervalFire (some 3600) (fire + 3600 * i) := rfl
    have hsucc : fire + 3600 * (i : Int) + 3600 = fire + 3600 * ((i + 1 : Nat) : Int) := by omega
    rw [hnext, Job.nextIntervalFire, if_pos ⟨by decide, hfit⟩, hsucc]

/-- Two late passes and a claim between them. -/
def lateEvents : List Event := [.pass 7200, .access ⟨Bool, .claim "run:0" 7200⟩, .pass 10800]

/-- The fires 3600 and 7200 are taken, and 14400 is the one that lies ahead. -/
theorem fires_caught_up_late :
    (hourlyFrom 3600).JobsNumbered ∧ Cron.WindowFits 10800 ∧
      hourlyRow 3600 ∈ (hourlyFrom 3600).jobs ∧
      (hourlyRow 3600).FiresAt (fun i => 3600 + 3600 * i) 10800 ∧
      (∀ e ∈ lateEvents, e.Spares (hourlyRow 3600) 10800) ∧
      ∃ k : Nat, (∀ i < k, (3600 : Int) + 3600 * i ≤ 10800) ∧ (10800 : Int) < 3600 + 3600 * k ∧
        ((hourlyFrom 3600).meet lateEvents).firesOf "job:0" = [3600, 7200] := by
  have hs := jobsNumbered_hourlyFrom 3600
  have hfits : Cron.WindowFits 10800 := by decide
  have hr : hourlyRow 3600 ∈ (hourlyFrom 3600).jobs := by decide +kernel
  have hfires : (hourlyRow 3600).FiresAt (fun i => 3600 + 3600 * i) 10800 :=
    firesAt_hourlyRow (by decide)
  have hevents : ∀ e ∈ lateEvents, e.Spares (hourlyRow 3600) 10800 := by
    simp [lateEvents, Event.Spares, Statement.Elsewhere]
  obtain ⟨k, hk, hahead, -, hrecord, -⟩ := fires_caught_up hs hfits hr hfires hevents
  exact ⟨hs, hfits, hr, hfires, hevents, k, hk, hahead, hrecord⟩

/-- **Late passes do not always catch up**: where the search for the fire of another job leaves
representable time, the pass ends before any job is fired. -/
theorem not_always_caught_up :
    ¬ ∀ (s : Store) (r : JobRow) (f : Nat → Int) (now : Int) (events : List Event), s.JobsNumbered →
      r ∈ s.jobs → r.FiresAt f now → (∀ e ∈ events, e.Spares r now) →
      (s.meet events).firesOf r.id = s.firesOf r.id ++ (List.range (firesBy f 0 events)).map f := by
  intro hcaught
  let s := (hourlyFrom 8210266876000).saveJob (.cron "every minute" "true" "* * * * *") 0
  have hs : s.JobsNumbered := (jobsNumbered_hourlyFrom _).saveJob _ 0
  have hr : hourlyRow 8210266876000 ∈ s.jobs := by decide +kernel
  have hfires :
      (hourlyRow 8210266876000).FiresAt (fun i => 8210266876000 + 3600 * i) 8210266876000 :=
    firesAt_hourlyRow (by decide)
  have hrecord := hcaught s _ _ 8210266876000 [.pass 8210266876000] hs hr hfires
    (by simp [Event.Spares])
  have hnone : (s.meet [.pass 8210266876000]).firesOf (hourlyRow 8210266876000).id = [] := by
    decide +kernel
  rw [hnone] at hrecord
  simp [firesBy] at hrecord

end Store

end Timetable
