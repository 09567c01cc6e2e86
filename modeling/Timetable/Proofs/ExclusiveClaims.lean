/-
**Every run is claimed once.**

Whoever wants the run at the front of the queue looks at it in one statement and claims what was
seen in another, and builds its answer from what was seen.  In between others may claim, fire, end
and delete.  Two facts make this safe: nothing ever puts a run back into the queue, so a second
claim of a run finds nothing to take; and nothing changes a run that waits, so what was seen is
still right when the claim goes through.

Main definitions:

* `Statement.Claims` — a statement claims a run, `Store.ClaimedAt` — at a moment of a history;
* `Reply.Earned` — a reply says what the last statement did;
* `Program.Sound` — what a party still has to do rests on what still holds.

Main results:

* `Store.RunsKeyed.claimedAt_unique` — in a history a run is claimed once;
* `Program.Sound.perform` — replies are earned, and what is left to do stays sound;
* `Session.claims_exclusive` — **every run is claimed once, and handed out as it is stored**.
-/

import Timetable.Proofs.Session

set_option autoImplicit false
set_option relaxedAutoImplicit false

namespace Timetable

/-! ### Claims in a history -/

/-- A claim that goes through takes a run that waits. -/
theorem Store.exists_started_of_claim {s : Store} {runId : String} {now : Int}
    (h : (s.claim runId now).1 = true) :
    ∃ r ∈ s.runs, r.id = runId ∧ r.hasStatus .queued = true ∧
      r.started now ∈ (s.claim runId now).2.runs := by
  obtain ⟨r, hr, hq⟩ := List.any_eq_true.1 h
  have hmem : r.started now ∈ (s.claim runId now).2.runs :=
    List.mem_map.2 ⟨r, hr, by rw [if_pos hq]; rfl⟩
  simp only [isQueued, Bool.and_eq_true, beq_iff_eq] at hq
  exact ⟨r, hr, hq.1, hq.2, hmem⟩

namespace Statement

variable {α : Type}

/-- A statement claims the run with an identifier, and the claim goes through. -/
def Claims {α : Type} (runId : String) : Statement α → Store → Prop
  | claim id now, s => id = runId ∧ (s.claim id now).1 = true
  | _, _ => False

/-- What is claimed was waiting, and is going afterwards. -/
theorem Claims.started {st : Statement α} {s : Store} {runId : String} (h : st.Claims runId s) :
    ∃ now, ∃ r ∈ s.runs, r.id = runId ∧ r.hasStatus .queued = true ∧
      r.started now ∈ (st.run s).2.runs := by
  cases st with
  | claim id now =>
    obtain ⟨rfl, hwon⟩ := h
    exact ⟨now, Store.exists_started_of_claim hwon⟩
  | _ => exact h.elim

end Statement

namespace Store

variable {s : Store} {history : List Access} {runId : String}

/-- **The statement at a moment of a history claims a run.** -/
def ClaimedAt (s : Store) (history : List Access) (k : Nat) (runId : String) : Prop :=
  ∃ a, history[k]? = some a ∧ a.2.Claims runId (s.stage history k)

theorem ClaimedAt.lt_length {k : Nat} (h : s.ClaimedAt history k runId) : k < history.length := by
  obtain ⟨a, ha, -⟩ := h
  exact (List.getElem?_eq_some_iff.1 ha).1

/-- What happens later does not undo a claim. -/
theorem ClaimedAt.append {k : Nat} (h : s.ClaimedAt history k runId) (more : List Access) :
    s.ClaimedAt (history ++ more) k runId := by
  have hk := h.lt_length
  obtain ⟨a, ha, hclaims⟩ := h
  exact ⟨a, by rw [List.getElem?_append_left hk, ha], by rwa [stage_append (Nat.le_of_lt hk)]⟩

/-- After a claim no further one of the same run goes through. -/
theorem RunsKeyed.not_claimedAt_of_lt (hs : s.RunsKeyed) (hends : ∀ a ∈ history, a.2.EndsRuns)
    {j k : Nat} (hj : s.ClaimedAt history j runId) (hjk : j < k) :
    ¬ s.ClaimedAt history k runId := by
  rintro ⟨b, -, hagain⟩
  obtain ⟨a, ha, hclaims⟩ := hj
  -- the row that the first claim left, and the row that the second one would take
  obtain ⟨now, r, -, rfl, -, hstarted⟩ := hclaims.started
  obtain ⟨-, r', hr', hid, hqueued, -⟩ := hagain.started
  have hbefore : r.started now ∈ (s.stage history (j + 1)).runs := by
    rw [stage_succ ha]
    exact hstarted
  have hcourse : (r.started now).Course r' := hs.course_stage hends hjk hbefore hr' hid
  have hsame := hcourse.eq_of_queued hqueued
  rw [hsame] at hqueued
  simp at hqueued

/-- **In a history a run is claimed once.** -/
theorem RunsKeyed.claimedAt_unique (hs : s.RunsKeyed) (hends : ∀ a ∈ history, a.2.EndsRuns)
    {j k : Nat} (hj : s.ClaimedAt history j runId) (hk : s.ClaimedAt history k runId) : j = k := by
  by_contra hne
  rcases Nat.lt_or_gt_of_ne hne with hlt | hlt
  · exact hs.not_claimedAt_of_lt hends hj hlt hk
  · exact hs.not_claimedAt_of_lt hends hk hlt hj

end Store

/-! ### What is handed back -/

/-- **A reply says what the last statement did**: it claimed the run, and a run that is handed out
is what its row says right after the claim. -/
def Reply.Earned (a : Access) (s : Store) : Reply → Prop
  | nothing => True
  | won runId => a.2.Claims runId s
  | handed run =>
    a.2.Claims run.id s ∧ ∃ r ∈ (a.apply s).runs, r.id = run.id ∧ r.decode = .ok run

namespace Statement

variable {α : Type}

/-- A statement claims no run, and ends runs only in a status that ends them. -/
def LeavesQueue {α : Type} : Statement α → Prop
  | claim _ _ => False
  | finish _ status _ _ _ => status.isTerminal = true
  | _ => True

theorem LeavesGoing.leavesQueue {st : Statement α} (h : st.LeavesGoing) : st.LeavesQueue := by
  cases st with
  | claim runId now => exact h.elim
  | finish runId status error summary now => exact h.elim
  | _ => trivial

end Statement

namespace Operation

open Program

/-- Every operation that is no claim leaves the queue alone. -/
theorem leavesQueue_or_claims {o : Operation} (h : o.EndsRuns) :
    (o.program.Only fun _ st => st.LeavesQueue) ∧ o.call = (o.program.bind fun _ => done .nothing) ∨
      (∃ runId now, o = claim runId now) ∨ ∃ now, o = claimNext now := by
  have hleaves : o.LeavesGoing → o.program.Only fun _ st => st.LeavesQueue :=
    fun hgoing => (only_leavesGoing hgoing).mono fun _ _ hst => hst.leavesQueue
  cases o with
  | claim runId now => exact Or.inr (Or.inl ⟨runId, now, rfl⟩)
  | claimNext now => exact Or.inr (Or.inr ⟨now, rfl⟩)
  | finish runId status error summary now => exact Or.inl ⟨(Only.attempt h).silent, rfl⟩
  | recover now => exact Or.inl ⟨(Only.attempt trivial).silent, rfl⟩
  | failRunning message now => exact Or.inl ⟨(Only.attempt trivial).silent, rfl⟩
  | _ => exact Or.inl ⟨hleaves trivial, rfl⟩

end Operation

namespace Program

open Operation

/-- **What a party still has to do rests on what still holds**: it leaves the queue alone, or is
about to claim a run by its identifier, or to look at the queue, or to claim a run that it has seen
there and that has not changed since. -/
inductive Sound (s : Store) : Program Reply → Prop where
  /-- Everything is done. -/
  | replied (reply : Reply) : Sound s (done reply)
  /-- The queue is left alone, and nothing is handed back. -/
  | leaves (p : Program Unit) (h : p.Only fun _ st => st.LeavesQueue) :
    Sound s (p.bind fun _ => done .nothing)
  /-- A run is about to be claimed. -/
  | claims (runId : String) (now : Int) : Sound s (claim runId now).call
  /-- The front of the queue is about to be looked at. -/
  | looks (now : Int) : Sound s (claimNext now).call
  /-- A run that was seen is about to be claimed. -/
  | seen (run : Run) (now : Int) (h : s.Shows run) : Sound s (claimSeen run now)

variable {s : Store} {p : Program Reply}

theorem Sound.call {o : Operation} (h : o.EndsRuns) : Sound s o.call := by
  rcases leavesQueue_or_claims h with ⟨honly, hcall⟩ | ⟨runId, now, rfl⟩ | ⟨now, rfl⟩
  · rw [hcall]
    exact .leaves _ honly
  · exact .claims runId now
  · exact .looks now

/-- What others do keeps what is still to be done sound. -/
theorem Sound.run {α : Type} {st : Statement α} (hends : st.EndsRuns) (h : p.Sound s) :
    p.Sound (st.run s).2 := by
  cases h with
  | replied reply => exact .replied reply
  | leaves p h => exact .leaves p h
  | claims runId now => exact .claims runId now
  | looks now => exact .looks now
  | seen run now h => exact .seen run now (Statement.shows_run hends h)

theorem eq_nothing_of_bind {p : Program Unit} {reply : Reply}
    (h : (p.bind fun _ => done .nothing) = done reply) : reply = .nothing := by
  cases p with
  | done a => cases h; rfl
  | perform st next => cases h

/-- **Replies are earned**, and what is left to do after a statement is sound again. -/
theorem Sound.perform {β : Type} {st : Statement β} {next : Except AccessError β → Program Reply}
    (hs : s.RunsKeyed) (h : Sound s (perform st next)) :
    (next (st.run s).1).Sound (st.run s).2 ∧
      ∀ reply, next (st.run s).1 = done reply → reply.Earned ⟨β, st⟩ s := by
  generalize hp : Program.perform st next = p at h
  cases h with
  | replied reply => cases hp
  | leaves p honly =>
    cases p with
    | done a => cases hp
    | perform st' next' =>
      cases hp
      refine ⟨.leaves _ (honly.2 _), fun reply hreply => ?_⟩
      rw [eq_nothing_of_bind hreply]
      trivial
  | claims runId now =>
    cases hp
    cases hwon : (s.claim runId now).1 with
    | false =>
      simp only [Statement.run, hwon]
      exact ⟨.replied _, fun reply hreply => by cases hreply; trivial⟩
    | true =>
      simp only [Statement.run, hwon]
      exact ⟨.replied _, fun reply hreply => by cases hreply; exact ⟨rfl, hwon⟩⟩
  | looks now =>
    rw [call_claimNext] at hp
    cases hp
    cases hseen : s.oldestQueued? with
    | error e =>
      simp only [Statement.run, Statement.readRuns, hseen]
      exact ⟨.replied _, fun reply hreply => by cases hreply; trivial⟩
    | ok found =>
      cases found with
      | none =>
        simp only [Statement.run, Statement.readRuns, hseen]
        exact ⟨.replied _, fun reply hreply => by cases hreply; trivial⟩
      | some run =>
        simp only [Statement.run, Statement.readRuns, hseen]
        exact ⟨.seen run now (hs.shows_of_oldestQueued hseen), fun reply hreply => by cases hreply⟩
  | seen run now hshows =>
    cases hp
    cases hwon : (s.claim run.id now).1 with
    | false =>
      simp only [Statement.run, hwon]
      exact ⟨.replied _, fun reply hreply => by cases hreply; trivial⟩
    | true =>
      simp only [Statement.run, hwon]
      refine ⟨.replied _, fun reply hreply => ?_⟩
      cases hreply
      -- the run that was seen is still what its row says, so the answer built from it is right
      obtain ⟨r, hr, hid, hqueued, hstarted⟩ := Store.exists_started_of_claim hwon
      have hdecode : r.decode = .ok run := hshows.decode r hr hid hqueued
      exact ⟨⟨rfl, hwon⟩, r.started now, hstarted, hid, RunRow.decode_started hdecode now⟩

end Program

/-- A reply that names a run is earned by a claim of it. -/
theorem Reply.Earned.claims {a : Access} {s : Store} {reply : Reply} {runId : String}
    (h : reply.Earned a s) (hrun : reply.claimed? = some runId) : a.2.Claims runId s := by
  cases reply with
  | nothing => cases hrun
  | won id => cases hrun; exact h
  | handed run => cases hrun; exact h.1

/-- An operation that comes to no statement claims nothing. -/
theorem Operation.eq_nothing_of_call {o : Operation} (h : o.EndsRuns) {reply : Reply}
    (hcall : o.call = .done reply) : reply = .nothing := by
  rcases leavesQueue_or_claims h with ⟨-, hbind⟩ | ⟨runId, now, rfl⟩ | ⟨now, rfl⟩
  · exact Program.eq_nothing_of_bind (hbind.symm.trans hcall)
  · cases hcall
  · cases hcall

/-! ### Sessions -/

/-- What was handed back was earned by the statement just before. -/
def Return.Earned {ι : Type} (x : Return ι) (s : Store) (history : List Access) : Prop :=
  ∃ k a, x.moment = k + 1 ∧ history[k]? = some a ∧ x.reply.Earned a (s.stage history k)

theorem Return.Earned.append {ι : Type} {x : Return ι} {s : Store} {history : List Access}
    (h : x.Earned s history) (more : List Access) : x.Earned s (history ++ more) := by
  obtain ⟨k, a, hmoment, ha, hearned⟩ := h
  have hk : k < history.length := (List.getElem?_eq_some_iff.1 ha).1
  exact ⟨k, a, hmoment, by rw [List.getElem?_append_left hk, ha],
    by rwa [Store.stage_append (Nat.le_of_lt hk)]⟩

theorem Return.Earned.claimedAt {ι : Type} {x : Return ι} {s : Store} {history : List Access}
    (h : x.Earned s history) {runId : String} (hrun : x.reply.claimed? = some runId) :
    ∃ k, x.moment = k + 1 ∧ s.ClaimedAt history k runId := by
  obtain ⟨k, a, hmoment, ha, hearned⟩ := h
  exact ⟨k, hmoment, a, ha, hearned.claims hrun⟩

namespace Session

variable {ι : Type} [DecidableEq ι] {s : Store} {d : Session ι}

/-- **The invariant of a session**: what is still to be done is sound, what was handed back was
earned, and no two claims were handed back at the same moment. -/
structure Orderly (s : Store) (d : Session ι) : Prop where
  /-- What every party still has to do is sound. -/
  rest : ∀ i, (d.rest i).Sound d.store
  /-- Nothing is handed back before it happens. -/
  moment_le : ∀ x ∈ d.returns, x.moment ≤ d.history.length
  /-- What was handed back was earned. -/
  earned : ∀ x ∈ d.returns, x.reply = .nothing ∨ x.Earned s d.history
  /-- Claims are handed back one after the other. -/
  ordered : d.returns.Pairwise fun x y => y.reply = .nothing ∨ x.moment < y.moment

omit [DecidableEq ι] in
theorem orderly_opening (s : Store) : (opening s : Session ι).Orderly s where
  rest _ := .replied _
  moment_le _ hx := nomatch hx
  earned _ hx := nomatch hx
  ordered := List.Pairwise.nil

/-- A party goes on with what is sound, and gets nothing or what the last statement earned. -/
theorem Orderly.goOn (h : d.Orderly s) (i : ι) {p : Program Reply} (hp : p.Sound d.store)
    (hreply : ∀ reply, p = .done reply → reply = .nothing ∨
      (⟨i, reply, d.history.length⟩ : Return ι).Earned s d.history ∧
        ∀ x ∈ d.returns, x.moment < d.history.length) : (d.goOn i p).Orderly s := by
  have hrest : ∀ k, ((d.goOn i p).rest k).Sound d.store := rest_goOn h.rest hp
  cases p with
  | perform st next =>
    refine ⟨hrest, ?_, ?_, ?_⟩ <;>
      simp only [Session.goOn, Program.ended?, Option.map_none, Option.toList_none, List.append_nil]
    · exact h.moment_le
    · exact h.earned
    · exact h.ordered
  | done reply =>
    have hnew := hreply reply rfl
    refine ⟨hrest, ?_, ?_, ?_⟩ <;>
      simp only [Session.goOn, Program.ended?, Option.map_some, Option.toList_some]
    · intro x hx
      rcases List.mem_append.1 hx with hold | hnew
      · exact h.moment_le x hold
      · exact Nat.le_of_eq (congrArg Return.moment (List.mem_singleton.1 hnew))
    · intro x hx
      rcases List.mem_append.1 hx with hold | hmem
      · exact h.earned x hold
      · obtain rfl := List.mem_singleton.1 hmem
        exact hnew.imp_right fun hearned => hearned.1
    · refine List.pairwise_append.2 ⟨h.ordered, List.pairwise_singleton _ _, fun x hx y hy => ?_⟩
      obtain rfl := List.mem_singleton.1 hy
      exact hnew.imp_right fun hearned => hearned.2 x hx

omit [DecidableEq ι] in
/-- Performing a statement keeps everything that was handed back earned. -/
theorem Orderly.perform (h : d.Orderly s) {β : Type} {st : Statement β} (hends : st.EndsRuns) :
    (d.perform st).Orderly s where
  rest i := (h.rest i).run hends
  moment_le x hx := by
    have := h.moment_le x hx
    simp only [Session.perform, List.length_append, List.length_singleton]
    omega
  earned x hx := (h.earned x hx).imp_right fun hearned => hearned.append _
  ordered := h.ordered

theorem Orderly.turn (h : d.Orderly s) (hs : s.RunsKeyed) (htracked : d.Tracked s) {t : Turn ι}
    (ht : t.EndsRuns) : (d.turn t).Orderly s := by
  cases t with
  | take i o =>
    simp only [Session.turn]
    split
    · exact h.goOn i (.call ht) fun reply hcall => Or.inl (Operation.eq_nothing_of_call ht hcall)
    · exact h
  | act i =>
    cases hrest : d.rest i with
    | done reply => simpa only [Session.turn, hrest] using h
    | perform st next =>
      simp only [Session.turn, hrest]
      have hi := htracked.rest i
      have hsound := h.rest i
      rw [hrest] at hi hsound
      obtain ⟨hnext, hearned⟩ := hsound.perform (htracked.runsKeyed hs)
      refine (h.perform hi.1).goOn i hnext fun reply hreply => Or.inr ⟨?_, fun x hx => ?_⟩
      · refine ⟨d.history.length, ⟨_, st⟩, by simp [Session.perform], by simp [Session.perform], ?_⟩
        simp only [Session.perform]
        rw [Store.stage_append (Nat.le_refl _), Store.stage_length, ← htracked.store_eq]
        exact hearned reply hreply
      · have := h.moment_le x hx
        simp only [Session.perform, List.length_append, List.length_singleton]
        omega

/-- **Every session is orderly.** -/
theorem orderly_play (hs : s.RunsKeyed) {turns : List (Turn ι)} (hturns : ∀ t ∈ turns, t.EndsRuns) :
    ((opening s).play turns).Orderly s := by
  refine (play_induction (P := fun d => d.Tracked s ∧ d.Orderly s)
    ⟨tracked_opening s, orderly_opening s⟩ fun d t ht h => ?_).2
  exact ⟨h.1.turn (hturns t ht), h.2.turn hs h.1 (hturns t ht)⟩

/-- **Every run is claimed once, and handed out as it is stored.**  Whatever any number of parties
do on a store, their statements interleaved in any way: no identifier of a run is handed back twice
by claims that went through, because no history holds two of them for one run; and a run that is
handed out is, in every column, what its row says right after the statement that claimed it. -/
theorem claims_exclusive (hs : s.RunsKeyed) {turns : List (Turn ι)}
    (hturns : ∀ t ∈ turns, t.EndsRuns) :
    ((opening s).play turns).store = s.through ((opening s).play turns).history ∧
      (((opening s).play turns).returns.filterMap (·.reply.claimed?)).Nodup ∧
      (∀ runId j k, s.ClaimedAt ((opening s).play turns).history j runId →
        s.ClaimedAt ((opening s).play turns).history k runId → j = k) ∧
      ∀ x ∈ ((opening s).play turns).returns,
        (∀ runId, x.reply.claimed? = some runId →
          ∃ k, x.moment = k + 1 ∧ s.ClaimedAt ((opening s).play turns).history k runId) ∧
        ∀ run, x.reply = .handed run →
          RunRow.ofRun run ∈ (s.stage ((opening s).play turns).history x.moment).runs ∧
            ∀ r ∈ (s.stage ((opening s).play turns).history x.moment).runs,
              r.id = run.id → r = RunRow.ofRun run := by
  have htracked := tracked_play s hturns
  have horderly := orderly_play hs hturns
  generalize (opening s).play turns = d at htracked horderly
  have hearned (x : Return ι) (hx : x ∈ d.returns) {runId : String}
      (hrun : x.reply.claimed? = some runId) : x.Earned s d.history := by
    refine (horderly.earned x hx).resolve_left fun hnothing => ?_
    rw [hnothing] at hrun
    cases hrun
  have hunique (runId : String) (j k : Nat) (hj : s.ClaimedAt d.history j runId)
      (hk : s.ClaimedAt d.history k runId) : j = k := hs.claimedAt_unique htracked.ends hj hk
  refine ⟨htracked.store_eq, ?_, hunique, fun x hx => ⟨fun runId hrun => ?_, fun run hrun => ?_⟩⟩
  · -- two claims of one run would have gone through at the same moment
    refine List.pairwise_filterMap.2 (List.Pairwise.imp_of_mem ?_ horderly.ordered)
    rintro x y hx hy hordered runId hrunx runId' hruny rfl
    obtain ⟨j, hxj, hj⟩ := (hearned x hx hrunx).claimedAt hrunx
    obtain ⟨k, hyk, hk⟩ := (hearned y hy hruny).claimedAt hruny
    have hjk := hunique runId j k hj hk
    rcases hordered with hnothing | hlt
    · rw [hnothing] at hruny
      cases hruny
    · omega
  · exact (hearned x hx hrun).claimedAt hrun
  · have hclaimed : x.reply.claimed? = some run.id := by rw [hrun]; rfl
    obtain ⟨k, a, hmoment, ha, hreply⟩ := hearned x hx hclaimed
    rw [hrun] at hreply
    obtain ⟨-, r, hr, hid, hdecode⟩ := hreply
    have hrow : r = RunRow.ofRun run := RunRow.eq_ofRun_of_decode hdecode
    have hkeyed : (s.stage d.history x.moment).RunsKeyed :=
      hs.stage htracked.ends x.moment
    have hmem : r ∈ (s.stage d.history x.moment).runs := by
      rw [hmoment, Store.stage_succ ha]
      exact hr
    refine ⟨hrow ▸ hmem, fun r' hr' hid' => ?_⟩
    rw [hkeyed.row_unique hr' hmem (hid'.trans hid.symm), hrow]

/-- An hourly job fires, and two parties look at its run before either of them claims it. -/
def raceForRun : List (Turn Bool) :=
  [.take false (.saveJob (.interval "report" "true" 3600) 0), .act false, .act false,
    .take false (.tick 0), .act false, .act false, .act false,
    .take false (.tick 3600), .act false, .act false, .act false,
    .take false (.claimNext 3600), .take true (.claimNext 3700), .act false, .act true,
    .act true, .act false]

/-- The run that both parties saw is handed to the one that claims it first. -/
theorem claims_exclusive_in_race :
    ((opening .empty).play raceForRun).returns.filterMap (·.reply.claimed?) = ["run:0"] ∧
      ∀ x ∈ ((opening .empty).play raceForRun).returns, ∀ run, x.reply = .handed run →
        RunRow.ofRun run ∈
          (Store.empty.stage ((opening .empty).play raceForRun).history x.moment).runs := by
  have hturns : ∀ t ∈ raceForRun, t.EndsRuns := by
    simp [raceForRun, Turn.EndsRuns, Operation.EndsRuns]
  have h := claims_exclusive Store.identified_empty.runsKeyed hturns
  exact ⟨by decide +kernel, fun x hx run hrun => ((h.2.2.2 x hx).2 run hrun).1⟩

end Session

end Timetable
