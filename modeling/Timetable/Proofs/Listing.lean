/-
**Listing jobs is exact.**

A query gets the jobs that it wants, no others and none twice, in the order that it asks for; and
where there are more of them than it asks for, those that come first.  What a query wants and what
comes first are said here of jobs and of the characters of texts, without the words, comparisons and
rows that the listing is made with.

Main definitions:

* `Text.Describes` — **a pattern describes a text**, one rule for each kind of character;
* `Text.TermOf` — the terms of a text;
* `JobQuery.Wants` — **a query wants a job**;
* `JobOrder.Precedes` — **a job comes before another one**;
* `Store.Lists` — **the jobs that are to be listed for a query**.

Main results:

* `Text.likeChars_iff`, `Text.mem_words_iff` — the reader of patterns, and the reader of terms;
* `Store.Regular.selects_iff`, `Store.isLE_compareJobs_iff` — rows are selected and compared as jobs
  are;
* `Store.Regular.lists_listJobs` — **what is listed is what is to be listed**;
* `Session.listing_exact` — and so it is whatever was done before.
-/

import Mathlib.Data.Int.ConditionallyCompleteOrder
import Mathlib.Data.Set.Card
import Timetable.Proofs.Catalogue.Tables
import Timetable.Proofs.Cron.Grammar

set_option autoImplicit false
set_option relaxedAutoImplicit false

namespace Timetable

/-! ### Patterns -/

namespace Text

/-- **A pattern describes a text.** -/
inductive Describes : List Char → List Char → Prop where
  /-- Nothing describes nothing. -/
  | nil : Describes [] []
  /-- A percent sign describes any stretch. -/
  | stretch {pattern text : List Char} (between : List Char) (h : Describes pattern text) :
    Describes ('%' :: pattern) (between ++ text)
  /-- An underscore describes any one character. -/
  | any {pattern text : List Char} (c : Char) (h : Describes pattern text) :
    Describes ('_' :: pattern) (c :: text)
  /-- Every other character describes itself, and a letter both its cases. -/
  | letter {pattern text : List Char} {p c : Char} (hstretch : p ≠ '%') (hany : p ≠ '_')
    (same : sameLetter p c = true) (h : Describes pattern text) :
      Describes (p :: pattern) (c :: text)

/-- The rest of a pattern may begin later. -/
theorem likeChars_percent_append {pattern : List Char} (between : List Char) {text : List Char}
    (h : likeChars pattern text = true) : likeChars ('%' :: pattern) (between ++ text) = true := by
  induction between with
  | nil =>
    cases text with
    | nil => simpa [likeChars] using h
    | cons c text => simp [likeChars, h]
  | cons c between ih => simp [likeChars, ih]

/-- **The reader of patterns** finds what they describe. -/
theorem likeChars_iff {pattern text : List Char} :
    likeChars pattern text = true ↔ Describes pattern text := by
  constructor
  · fun_induction likeChars pattern text with
    | case1 text =>
      intro h
      rw [List.isEmpty_iff.1 h]
      exact .nil
    | case2 pattern ih => exact fun h => .stretch [] (ih h)
    | case3 pattern c text ihrest ihmore =>
      intro h
      rcases Bool.or_eq_true_iff.1 h with h | h
      · exact .stretch [] (ihrest h)
      · cases ihmore h with
        | stretch between hrest => exact .stretch (c :: between) hrest
        | letter hstretch => exact absurd rfl hstretch
    | case4 pattern c text ih => exact fun h => .any c (ih h)
    | case5 pattern p c text hstretch hany ih =>
      intro h
      obtain ⟨hsame, hrest⟩ := Bool.and_eq_true_iff.1 h
      exact .letter (fun hp => hstretch hp) (fun hp => hany hp) hsame (ih hrest)
    | case6 => exact fun h => nomatch h
  · intro h
    induction h with
    | nil => simp [likeChars]
    | stretch between _ ih => exact likeChars_percent_append between ih
    | any c _ ih => simpa [likeChars] using ih
    | letter hstretch hany same _ ih =>
      rw [likeChars, same, ih, Bool.and_self]
      · exact hstretch
      · exact hany

/-! ### Terms -/

/-- **A term of a text**: there is no blank in it, and on both of its sides there is one, or nothing
at all. -/
structure TermOf (text term : List Char) : Prop where
  /-- There is something in it. -/
  ne_nil : term ≠ []
  /-- There is no blank in it. -/
  unbroken : ∀ c ∈ term, isBlank c = false
  /-- It stands between blanks. -/
  between : ∃ before after, text = before ++ term ++ after ∧
    (∀ c ∈ before.getLast?, isBlank c = true) ∧ ∀ c ∈ after.head?, isBlank c = true

/-- What stands between separators is a piece. -/
theorem mem_splitOnP_of_between {p : Char → Bool} {before term after : List Char}
    (hterm : ∀ c ∈ term, p c = false) (hbefore : ∀ c ∈ before.getLast?, p c = true)
    (hafter : ∀ c ∈ after.head?, p c = true) : term ∈ (before ++ term ++ after).splitOnP p := by
  have hfirst : term ∈ (term ++ after).splitOnP p := by
    cases after with
    | nil => simp [List.splitOnP_eq_singleton hterm]
    | cons c after =>
      simp [List.splitOnP_append_cons _ _ (hafter c rfl), List.splitOnP_eq_singleton hterm]
  rcases before.eq_nil_or_concat with rfl | ⟨before, c, rfl⟩
  · exact hfirst
  · have hc : p c = true := hbefore c (by simp)
    simpa [List.splitOnP_append_cons _ _ hc] using Or.inr hfirst

/-- A piece stands between separators. -/
theorem exists_between_of_mem_splitOnP {p : Char → Bool} {cs term : List Char}
    (h : term ∈ cs.splitOnP p) :
    ∃ before after, cs = before ++ term ++ after ∧ (∀ c ∈ before.getLast?, p c = true) ∧
      ∀ c ∈ after.head?, p c = true := by
  by_cases hsep : ∃ c ∈ cs, p c = true
  · obtain ⟨c, hc, hpc⟩ := hsep
    obtain ⟨front, back, rfl⟩ := List.append_of_mem hc
    rw [List.splitOnP_append_cons _ _ hpc, List.mem_append] at h
    rcases h with h | h
    · obtain ⟨before, after, hfront, hbefore, hafter⟩ := exists_between_of_mem_splitOnP h
      refine ⟨before, after ++ c :: back, by simp [hfront], hbefore, fun d hd => ?_⟩
      cases after with
      | nil => exact Option.some.inj hd ▸ hpc
      | cons a after => exact hafter d hd
    · obtain ⟨before, after, hback, hbefore, hafter⟩ := exists_between_of_mem_splitOnP h
      refine ⟨front ++ c :: before, after, by simp [hback], fun d hd => ?_, hafter⟩
      rcases before.eq_nil_or_concat with rfl | ⟨before, b, rfl⟩
      · have hlast : some c = some d := by simpa using hd
        exact Option.some.inj hlast ▸ hpc
      · exact hbefore d (by simpa [List.getLast?_cons] using hd)
  · have hnone : ∀ c ∈ cs, p c = false := fun c hc => by simpa using fun hp => hsep ⟨c, hc, hp⟩
    rw [List.splitOnP_eq_singleton hnone, List.mem_singleton] at h
    exact ⟨[], [], by simp [h], by simp, by simp⟩
termination_by cs.length
decreasing_by all_goals grind

/-- **The words of a text are its terms.** -/
theorem mem_words_iff {text term : String} :
    term ∈ words text ↔ TermOf text.toList term.toList := by
  have hword :
      term ∈ words text ↔ term.toList ∈ text.toList.splitOnP isBlank ∧ term.toList ≠ [] := by
    simp only [words, wordChars_eq, pieces, List.mem_map, List.mem_filter]
    constructor
    · rintro ⟨cs, ⟨hcs, hne⟩, rfl⟩
      exact ⟨by simpa using hcs, by simpa using hne⟩
    · rintro ⟨hmem, hne⟩
      exact ⟨term.toList, ⟨hmem, by simpa using hne⟩, by simp⟩
  rw [hword]
  constructor
  · rintro ⟨hmem, hne⟩
    have hunbroken (c : Char) (hc : c ∈ term.toList) : isBlank c = false :=
      (of_mem_splitWhere (splitWhere_eq_splitOnP isBlank text.toList ▸ hmem) hc).2
    exact ⟨hne, hunbroken, exists_between_of_mem_splitOnP hmem⟩
  · rintro ⟨hne, hunbroken, before, after, htext, hbefore, hafter⟩
    exact ⟨htext ▸ mem_splitOnP_of_between hunbroken hbefore hafter, hne⟩

/-- **A term is found in a text**: the text is described by the term between percent signs, both
read up to their first NUL. -/
def FoundIn (term text : List Char) : Prop :=
  Describes (beforeNul ('%' :: term ++ ['%'])) (beforeNul text)

theorem contains_iff {term text : String} :
    contains term text = true ↔ FoundIn term.toList text.toList := by
  rw [contains, like, likeChars_iff, FoundIn]
  simp [termPattern]

end Text

open Text

/-! ### Queries and orders -/

/-- **A query wants a job**: the job is enabled or disabled as asked for, and every term of the
search text is found in its name or in its task. -/
structure JobQuery.Wants (q : JobQuery) (j : Job) : Prop where
  /-- The job is enabled, or disabled, if the query says so. -/
  enabled : ∀ wanted ∈ q.enabled, j.enabled = wanted
  /-- Every term is found. -/
  terms : ∀ text ∈ q.text, ∀ term, TermOf text.toList term →
    FoundIn term j.name.toList ∨ FoundIn term j.task.toList

/-- **One time stands before another one**: both are there and they are in order, or only the first
one is there. -/
inductive StandsBefore (before : Int → Int → Prop) : Option Int → Option Int → Prop where
  /-- Both are there. -/
  | there {s t : Int} (h : before s t) : StandsBefore before (some s) (some t)
  /-- Only the first one is there. -/
  | absent (s : Int) : StandsBefore before (some s) none

/-- **A job comes before another one** in a list. -/
def JobOrder.Precedes : JobOrder → Job → Job → Prop
  | updatedAtDesc, a, b => b.updatedAt < a.updatedAt
  | lastRunAtDesc, a, b => StandsBefore (· > ·) a.lastRunAt b.lastRunAt ∨
      a.lastRunAt = b.lastRunAt ∧ b.updatedAt < a.updatedAt
  | nextRunAtAsc, a, b => StandsBefore (· < ·) a.nextRunAt b.nextRunAt ∨
      a.nextRunAt = b.nextRunAt ∧ b.updatedAt < a.updatedAt

/-! ### Rank -/

/-- The place of a time that may be absent: behind every other place if it is. -/
def place (rank : Int → Int) : Option Int → WithTop Int
  | some t => (rank t : Int)
  | none => ⊤

theorem standsBefore_iff {before : Int → Int → Prop} {rank : Int → Int}
    (hrank : ∀ s t, before s t ↔ rank s < rank t) (x y : Option Int) :
    StandsBefore before x y ↔ place rank x < place rank y := by
  cases x with
  | none => exact iff_of_false (fun h => nomatch h) not_top_lt
  | some s =>
    cases y with
    | none => exact iff_of_true (.absent s) (WithTop.coe_lt_top _)
    | some t =>
      rw [place, place, WithTop.coe_lt_coe, ← hrank]
      exact ⟨fun h => by cases h with | there h => exact h, .there⟩

theorem place_eq_place_iff {rank : Int → Int} (hrank : Function.Injective rank) {x y : Option Int} :
    place rank x = place rank y ↔ x = y := by
  cases x <;> cases y <;> simp [place, hrank.eq_iff]

namespace JobOrder

/-- The rank of a job: the place of the time that an order looks at, then the time of the last
change. -/
def rank : JobOrder → Job → WithTop Int ×ₗ Int
  | updatedAtDesc, j => toLex (0, -j.updatedAt)
  | lastRunAtDesc, j => toLex (place (- ·) j.lastRunAt, -j.updatedAt)
  | nextRunAtAsc, j => toLex (place id j.nextRunAt, -j.updatedAt)

variable {order : JobOrder} {a b : Job}

/-- **Jobs come in the order of their ranks.** -/
theorem precedes_iff : order.Precedes a b ↔ order.rank a < order.rank b := by
  cases order with
  | updatedAtDesc => simp [Precedes, rank, Prod.Lex.toLex_lt_toLex]
  | lastRunAtDesc =>
    have hlast : StandsBefore (· > ·) a.lastRunAt b.lastRunAt ↔
        place (- ·) a.lastRunAt < place (- ·) b.lastRunAt :=
          standsBefore_iff (fun s t => by omega) _ _
    rw [Precedes, rank, rank, Prod.Lex.toLex_lt_toLex, hlast, place_eq_place_iff neg_injective,
      neg_lt_neg_iff]
  | nextRunAtAsc =>
    have hnext : StandsBefore (· < ·) a.nextRunAt b.nextRunAt ↔
        place id a.nextRunAt < place id b.nextRunAt := standsBefore_iff (fun _ _ => Iff.rfl) _ _
    rw [Precedes, rank, rank, Prod.Lex.toLex_lt_toLex, hnext,
      place_eq_place_iff Function.injective_id, neg_lt_neg_iff]

end JobOrder

namespace Store

theorem newestFirst_eq_gt_iff {s t : Int} : newestFirst s t = .gt ↔ s < t := compare_gt_iff_gt

theorem newestFirst_eq_eq_iff {s t : Int} : newestFirst s t = .eq ↔ s = t := by
  rw [newestFirst, compare_eq_iff_eq, eq_comm]

theorem absentLast_eq_gt_iff {order : Int → Int → Ordering} {before : Int → Int → Prop}
    (horder : ∀ s t, order s t = .gt ↔ before t s) (x y : Option Int) :
    absentLast order x y = .gt ↔ StandsBefore before y x := by
  cases x with
  | none =>
    cases y with
    | none => exact iff_of_false (by simp [absentLast]) fun h => nomatch h
    | some t => exact iff_of_true rfl (.absent t)
  | some s =>
    cases y with
    | none => exact iff_of_false (by simp [absentLast]) fun h => nomatch h
    | some t => exact (horder s t).trans ⟨.there, fun h => by cases h with | there h => exact h⟩

theorem absentLast_eq_eq_iff {order : Int → Int → Ordering}
    (horder : ∀ s t, order s t = .eq ↔ s = t)
    (x y : Option Int) : absentLast order x y = .eq ↔ x = y := by
  cases x <;> cases y <;> simp [absentLast, horder]

variable {order : JobOrder} {a b : JobRow}

/-- **Rows are compared as their jobs are.** -/
theorem compareJobs_eq_gt_iff : compareJobs order a b = .gt ↔ order.Precedes b.decode a.decode := by
  cases order with
  | updatedAtDesc => exact newestFirst_eq_gt_iff
  | lastRunAtDesc =>
    rw [compareJobs, Ordering.then_eq_gt, absentLast_eq_gt_iff fun s t => newestFirst_eq_gt_iff,
      absentLast_eq_eq_iff fun s t => newestFirst_eq_eq_iff, newestFirst_eq_gt_iff,
      eq_comm (a := a.lastRunAt)]
    rfl
  | nextRunAtAsc =>
    rw [compareJobs, Ordering.then_eq_gt, absentLast_eq_gt_iff fun s t => compare_gt_iff_gt,
      absentLast_eq_eq_iff fun s t => compare_eq_iff_eq, newestFirst_eq_gt_iff,
      eq_comm (a := a.nextRunAt)]
    rfl

theorem isLE_compareJobs_iff :
    (compareJobs order a b).isLE = true ↔ order.rank a.decode ≤ order.rank b.decode := by
  rw [Ordering.isLE_iff_ne_gt, ← not_lt, ← JobOrder.precedes_iff, ← compareJobs_eq_gt_iff]

/-! ### Listings -/

/-- **The jobs that are to be listed for a query**: each once, only jobs that the query wants, as
many as it asks for if there are so many, none before one that is to stand before it, and none
instead of one that is to stand before it. -/
structure Lists (s : Store) (q : JobQuery) (jobs : List Job) : Prop where
  /-- No job is listed twice. -/
  once : (jobs.map (·.id)).Nodup
  /-- Jobs of the store are listed that the query wants. -/
  wanted : ∀ j ∈ jobs, j ∈ s.jobs.map JobRow.decode ∧ q.Wants j
  /-- There are as many of them as the query asks for, or as there are. -/
  length : jobs.length = min (if q.limit = 0 then 20 else min q.limit 200)
    {j | j ∈ s.jobs.map JobRow.decode ∧ q.Wants j}.ncard
  /-- They stand in order. -/
  ordered : jobs.Pairwise fun a b => ¬ q.order.Precedes b a
  /-- Nothing that is left out comes before what is listed. -/
  first : ∀ j ∈ s.jobs.map JobRow.decode, q.Wants j → j ∉ jobs → ∀ k ∈ jobs, ¬ q.order.Precedes j k

variable {s : Store} {q : JobQuery} {r : JobRow}

theorem pairwise_orderedRows :
    ((s.orderedRows q).map JobRow.decode).Pairwise fun a b => ¬ q.order.Precedes b a := by
  have htrans (a b c : JobRow) (hab : (compareJobs q.order a b).isLE = true)
      (hbc : (compareJobs q.order b c).isLE = true) : (compareJobs q.order a c).isLE = true := by
    rw [isLE_compareJobs_iff] at *
    exact hab.trans hbc
  have htotal (a b : JobRow) :
      ((compareJobs q.order a b).isLE || (compareJobs q.order b a).isLE) = true := by
    rw [Bool.or_eq_true, isLE_compareJobs_iff, isLE_compareJobs_iff]
    exact le_total _ _
  rw [List.pairwise_map]
  refine (List.pairwise_mergeSort htrans htotal _).imp fun {a b} hab => ?_
  rw [JobOrder.precedes_iff, not_lt]
  exact isLE_compareJobs_iff.1 hab

namespace Regular

/-- **A query selects the rows of the jobs that it wants.** -/
theorem selects_iff (h : s.Regular) (hr : r ∈ s.jobs) : selects q r = true ↔ q.Wants r.decode := by
  have henabled : q.enabled.all (fun wanted => r.enabled == flagNumber wanted) = true ↔
      ∀ wanted ∈ q.enabled, r.decode.enabled = wanted := by
    obtain ⟨flag, hflag⟩ := h.flagged r hr
    cases hq : q.enabled with
    | none => simp
    | some wanted =>
      cases flag <;> cases wanted <;> simp [JobRow.decode, hflag, flagNumber, flagSet]
  have hterms : (q.terms.all fun term => contains term r.name || contains term r.task) = true ↔
      ∀ text ∈ q.text, ∀ term, TermOf text.toList term →
        FoundIn term r.decode.name.toList ∨ FoundIn term r.decode.task.toList := by
    have hall : (q.terms.all fun term => contains term r.name || contains term r.task) = true ↔
        ∀ term ∈ q.terms, FoundIn term.toList r.name.toList ∨
          FoundIn term.toList r.task.toList := by
      simp only [List.all_eq_true, Bool.or_eq_true, contains_iff]
    rw [hall, JobQuery.terms]
    cases q.text with
    | none => simp [words, wordChars]
    | some text =>
      simp only [Option.getD_some, mem_words_iff, Option.mem_some_iff, forall_eq']
      refine ⟨fun h term hterm => ?_, fun h term => h term.toList⟩
      simpa [JobRow.decode] using h (String.ofList term) (by simpa using hterm)
  rw [selects, Bool.and_eq_true, henabled, hterms]
  exact ⟨fun hwants => ⟨hwants.1, hwants.2⟩, fun hwants => ⟨hwants.enabled, hwants.terms⟩⟩

theorem mem_map_orderedRows (h : s.Regular) {j : Job} :
    j ∈ (s.orderedRows q).map JobRow.decode ↔ j ∈ s.jobs.map JobRow.decode ∧ q.Wants j := by
  simp only [List.mem_map, mem_orderedRows]
  constructor
  · rintro ⟨r, ⟨hr, hselects⟩, rfl⟩
    exact ⟨⟨r, hr, rfl⟩, (h.selects_iff hr).1 hselects⟩
  · rintro ⟨⟨r, hr, rfl⟩, hwants⟩
    exact ⟨r, ⟨hr, (h.selects_iff hr).2 hwants⟩, rfl⟩

/-- As many rows are selected as there are jobs that the query wants. -/
theorem length_orderedRows (h : s.Regular) : ((s.orderedRows q).map JobRow.decode).length =
    {j | j ∈ s.jobs.map JobRow.decode ∧ q.Wants j}.ncard := by
  have hset : {j | j ∈ s.jobs.map JobRow.decode ∧ q.Wants j} =
      (((s.orderedRows q).map JobRow.decode).toFinset : Set Job) := by
    ext j
    rw [Set.mem_ofPred_eq, ← h.mem_map_orderedRows, List.coe_toFinset, Set.mem_ofPred_eq]
  rw [hset, Set.ncard_coe_finset, List.toFinset_card_of_nodup (h.nodup_ids_orderedRows q).of_map]

/-- **What is listed is what is to be listed.** -/
theorem lists_listJobs (h : s.Regular) (q : JobQuery) : s.Lists q (s.listJobs q) := by
  have hsplit := (List.take_append_drop q.effectiveLimit ((s.orderedRows q).map JobRow.decode)).symm
  have hsorted := pairwise_orderedRows (s := s) (q := q)
  rw [hsplit, List.pairwise_append] at hsorted
  obtain ⟨hordered, -, hfirst⟩ := hsorted
  rw [listJobs_eq]
  refine ⟨?_, fun j hj => ?_, ?_, hordered, fun j hj hwants hleft k hk => ?_⟩
  · exact ((List.take_sublist _ _).map _).nodup (h.nodup_ids_orderedRows q)
  · exact h.mem_map_orderedRows.1 (List.mem_of_mem_take hj)
  · rw [List.length_take, h.length_orderedRows]
    rfl
  · have hmem := h.mem_map_orderedRows.2 ⟨hj, hwants⟩
    rw [hsplit] at hmem
    exact hfirst k hk j ((List.mem_append.1 hmem).resolve_left hleft)

end Regular

end Store

/-! ### Sessions -/

namespace Session

variable {ι : Type} [DecidableEq ι]

/-- The tables of a session are regular. -/
theorem regular (turns : List (Turn ι)) : ((opening .empty).play turns).store.Regular := by
  have hbound := bound_savedBy .empty turns
  rw [hbound.store_eq]
  refine Store.regular_empty.through fun a ha => ?_
  obtain ⟨i, o, -, hst⟩ := hbound.performed a ha
  exact hst.savesNormal

/-- **Listing is exact, whatever was done before.** -/
theorem listing_exact (turns : List (Turn ι)) (q : JobQuery) :
    ∃ jobs, (Management.listJobs q).runStore ((opening .empty).play turns).store =
        (.ok jobs, ((opening .empty).play turns).store) ∧
      ((opening .empty).play turns).store.Lists q jobs :=
  ⟨_, rfl, (regular turns).lists_listJobs q⟩

end Session

end Timetable
