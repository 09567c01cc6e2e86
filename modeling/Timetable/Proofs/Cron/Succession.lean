/-
**Successive fires enumerate the schedule.**

A job moves from one fire to the next by looking for the next fire of its expression from the fire
that has come.  Each of these searches has a window of its own, which starts where the last one
found its fire.  This module shows that nothing is lost between two windows: what the searches find,
one after the other, is the list of all the fires up to the last one found.  It also shows that
looking again does not move a pending fire: from every instant before it, the search finds the same
fire.

An instant may have a fraction of a second.  It is then a pair of a second and of nanoseconds, and
pairs are compared by the second first.

Main definitions:

* `Cron.Expression.successive` — the fires found by searching from one to the next;
* `Cron.Expression.Enumerates` — a list is that of all fires from an instant up to its last one.

Main results:

* `Cron.Expression.isLeast_of_next` — the next fire is the earliest of all later ones;
* `Cron.Expression.next_eq_of_isLeast` — the earliest fire of a window is found;
* `Cron.Expression.enumerates_successive` — one search after the other loses nothing;
* `Cron.Expression.successive_fires` — **successive fires enumerate the schedule, and looking again
  does not move a pending fire**.
-/

import Mathlib.Data.Prod.Lex
import Timetable.Proofs.Cron.Window

set_option autoImplicit false
set_option relaxedAutoImplicit false

namespace Timetable.Cron.Expression

variable {e : Expression} {text : String} {after b t u : Int}

/-! ### One search -/

/-- The fires later than an instant start at its first whole minute. -/
theorem Fires.firstMinute_le_iff (h : e.Fires u) : firstMinute after ≤ u ↔ after < u := by
  have hmod := h.1
  simp only [firstMinute, Instant.minute] at hmod ⊢
  omega

/-- A search that finds a fire had its window in representable time. -/
theorem representable_of_next (h : e.next after = .ok t) :
    Instant.Representable (firstMinute after) ∧
      Instant.Representable (firstMinute after + windowDays * Instant.day) := by
  constructor
  · by_contra hstart
    simp [next, hstart] at h
  · by_contra hlimit
    simp only [next, hlimit, not_false_eq_true, if_true] at h
    split at h <;> cases h

/-- A search that finds a fire finds the earliest one of its window. -/
theorem isLeast_firesIn_of_next (hparse : parse text = .ok e) (h : e.next after = .ok t) :
    IsLeast (e.firesIn (firstMinute after) (firstMinute after + windowDays * Instant.day)) t := by
  obtain ⟨hstart, hlimit⟩ := representable_of_next h
  have hreports := (next_reports hparse hstart hlimit).2
  rwa [h] at hreports

/-- **The next fire is the earliest of all later ones**, also of those behind the window. -/
theorem isLeast_of_next (hparse : parse text = .ok e) (h : e.next after = .ok t) :
    IsLeast {u | after < u ∧ e.Fires u} t := by
  obtain ⟨⟨hfrom, hto, hfires⟩, hleast⟩ := isLeast_firesIn_of_next hparse h
  constructor
  · exact ⟨hfires.firstMinute_le_iff.1 hfrom, hfires⟩
  · rintro u ⟨hlater, hu⟩
    -- a fire behind the window is later than one inside
    rcases lt_or_ge u (firstMinute after + windowDays * Instant.day) with hin | hout
    · exact hleast ⟨hu.firstMinute_le_iff.2 hlater, hin, hu⟩
    · omega

/-- **The earliest of all later fires is found** when it lies in the window. -/
theorem next_eq_of_isLeast (hparse : parse text = .ok e)
    (hstart : Instant.Representable (firstMinute b))
    (hlimit : Instant.Representable (firstMinute b + windowDays * Instant.day))
    (ht : IsLeast {u | b < u ∧ e.Fires u} t)
    (hin : t < firstMinute b + windowDays * Instant.day) : e.next b = .ok t := by
  have hfires : e.Fires t := ht.1.2
  have hmem : t ∈ e.firesIn (firstMinute b) (firstMinute b + windowDays * Instant.day) :=
    ⟨hfires.firstMinute_le_iff.2 ht.1.1, hin, hfires⟩
  have hsome : e.next b ≠ .error .noMatch := by
    intro hnone
    rw [(next_eq_noMatch_iff_firesIn hparse hstart hlimit).1 hnone] at hmem
    exact hmem
  cases hnext : e.next b with
  | ok t' => rw [(isLeast_of_next hparse hnext).unique ht]
  | error failure =>
    cases failure with
    | noMatch => exact absurd hnext hsome
    | outOfTime => exact absurd hnext (next_reports hparse hstart hlimit).1

/-- **Looking again does not move a pending fire**: from every instant up to it whose window ends in
representable time, the same fire is found. -/
theorem next_eq_of_between (hparse : parse text = .ok e) (h : e.next after = .ok t)
    (hle : after ≤ b) (hlt : b < t)
    (hlimit : Instant.Representable (firstMinute b + windowDays * Instant.day)) :
    e.next b = .ok t := by
  have hmono : firstMinute after ≤ firstMinute b := by
    simp only [firstMinute, Instant.minute]
    omega
  have hin := (isLeast_firesIn_of_next hparse h).1.2.1
  obtain ⟨⟨-, hfires⟩, hleast⟩ := isLeast_of_next hparse h
  refine next_eq_of_isLeast hparse ⟨?_, ?_⟩ hlimit ⟨⟨hlt, hfires⟩, ?_⟩ (by omega)
  · exact (representable_of_next h).1.1.trans hmono
  · have hend := hlimit.2
    simp only [windowDays, Instant.day] at hend
    omega
  · rintro u ⟨hlater, hu⟩
    exact hleast ⟨lt_of_le_of_lt hle hlater, hu⟩

/-! ### One search after the other -/

/-- **Successive fires**: each search starts from the fire that the search before it found, and the
first failure is the answer. -/
def successive (e : Expression) : Int → Nat → Except SearchFailure (List Int)
  | _, 0 => .ok []
  | after, n + 1 =>
    match e.next after with
    | .error failure => .error failure
    | .ok t => (e.successive t n).map (t :: ·)

theorem successive_succ_eq_ok {n : Nat} {ts : List Int} :
    e.successive after (n + 1) = .ok ts ↔
      ∃ t rest, e.next after = .ok t ∧ e.successive t n = .ok rest ∧ ts = t :: rest := by
  rw [successive]
  cases hnext : e.next after with
  | error failure => simp
  | ok t => cases hrest : e.successive t n <;> simp [Except.map, hrest, eq_comm]

theorem length_successive {n : Nat} {ts : List Int} (h : e.successive after n = .ok ts) :
    ts.length = n := by
  induction n generalizing after ts with
  | zero =>
    cases h
    rfl
  | succ n ih =>
    obtain ⟨t, rest, -, hrest, rfl⟩ := successive_succ_eq_ok.1 h
    simp [ih hrest]

/-- A list of instants is that of all fires later than `after`, up to the last instant of the list,
in ascending order. -/
structure Enumerates (e : Expression) (after : Int) (ts : List Int) : Prop where
  /-- The instants are in ascending order. -/
  ordered : ts.Pairwise (· < ·)
  /-- They are the fires up to the last of them. -/
  mem_iff : ∀ u, u ∈ ts ↔ after < u ∧ u ≤ ts.getLastD after ∧ e.Fires u

theorem enumerates_nil (e : Expression) (after : Int) : e.Enumerates after [] := by
  refine ⟨List.Pairwise.nil, fun u => ?_⟩
  simp only [List.not_mem_nil, List.getLastD_nil, false_iff]
  omega

/-- The last instant of an enumeration is not earlier than its start. -/
theorem Enumerates.le_getLastD {ts : List Int} (h : e.Enumerates t ts) : t ≤ ts.getLastD t := by
  rcases List.mem_cons.1 (List.getLastD_mem_cons (l := ts) (a := t)) with heq | hin
  · exact heq.ge
  · exact ((h.mem_iff _).1 hin).1.le

/-- **A next fire in front of an enumeration.** -/
theorem Enumerates.cons {rest : List Int} (ht : IsLeast {u | after < u ∧ e.Fires u} t)
    (h : e.Enumerates t rest) : e.Enumerates after (t :: rest) := by
  obtain ⟨⟨hlater, hfires⟩, hleast⟩ := ht
  refine ⟨List.pairwise_cons.2 ⟨fun u hu => ((h.mem_iff u).1 hu).1, h.ordered⟩, fun u => ?_⟩
  rw [List.mem_cons, h.mem_iff, List.getLastD_cons]
  constructor
  · rintro (rfl | ⟨hlt, hle, hu⟩)
    · exact ⟨hlater, h.le_getLastD, hfires⟩
    · exact ⟨hlater.trans hlt, hle, hu⟩
  · rintro ⟨hlt, hle, hu⟩
    rcases eq_or_lt_of_le (hleast ⟨hlt, hu⟩) with heq | hbehind
    · exact Or.inl heq.symm
    · exact Or.inr ⟨hbehind, hle, hu⟩

/-- **One search after the other loses nothing.** -/
theorem enumerates_successive (hparse : parse text = .ok e) {n : Nat} {ts : List Int}
    (h : e.successive after n = .ok ts) : e.Enumerates after ts := by
  induction n generalizing after ts with
  | zero =>
    cases h
    exact enumerates_nil e after
  | succ n ih =>
    obtain ⟨t, rest, hnext, hrest, rfl⟩ := successive_succ_eq_ok.1 h
    exact (ih hrest).cons (isLeast_of_next hparse hnext)

/-- **Successive fires enumerate the schedule.**  Take an expression that was read and an instant,
possibly with a fraction of a second.  Whenever `n` searches, each from the fire that the one before
it found, all succeed, their fires are `n` instants in ascending order, and they are all the whole
minutes that match, later than the instant and up to the last fire found.  And from every instant
before the next fire, the instant itself included, whose window of 366 days ends in representable
time, the search finds the same next fire. -/
theorem successive_fires (hparse : parse text = .ok e) (after : Int) (nanos : Nat) :
    (∀ n ts, e.successive after n = .ok ts →
      ts.length = n ∧ ts.Pairwise (· < ·) ∧
        ∀ u, u ∈ ts ↔ u % Instant.minute = 0 ∧ e.matchesAt u = true ∧
          toLex (after, nanos) < toLex (u, 0) ∧ u ≤ ts.getLastD after) ∧
    ∀ t, e.next after = .ok t → ∀ (b : Int) (nanos' : Nat),
      toLex (after, nanos) ≤ toLex (b, nanos') → toLex (b, nanos') < toLex (t, 0) →
      Instant.Representable (firstMinute b + windowDays * Instant.day) → e.next b = .ok t := by
  constructor
  · intro n ts h
    obtain ⟨hordered, hmem⟩ := enumerates_successive hparse h
    refine ⟨length_successive h, hordered, fun u => ?_⟩
    rw [hmem, Fires, Prod.Lex.toLex_lt_toLex]
    simp only [Nat.not_lt_zero, and_false, or_false]
    tauto
  · intro t h b nanos' hle hlt hlimit
    rw [Prod.Lex.toLex_le_toLex] at hle
    rw [Prod.Lex.toLex_lt_toLex] at hlt
    exact next_eq_of_between hparse h (by omega) (by omega) hlimit

/-- Half a second after the start of February 2024, a job of the last days of that month: its next
fires are those of 28 and 29 February 2024 and of 28 February 2025, and the first of them is also
the next fire from its own minute less a nanosecond. -/
theorem successive_fires_leap_year :
    ∃ e, parse "30 23 28,29 2 *" = .ok e ∧
      e.successive 1706745600 3 = .ok [1709163000, 1709249400, 1740785400] ∧
      (∀ u, u ∈ [1709163000, 1709249400, 1740785400] ↔
        u % Instant.minute = 0 ∧ e.matchesAt u = true ∧
          toLex ((1706745600 : Int), 500000000) < toLex (u, 0) ∧ u ≤ 1740785400) ∧
      toLex ((1706745600 : Int), 500000000) ≤ toLex (1709162999, 999999999) ∧
      toLex ((1709162999 : Int), 999999999) < toLex (1709163000, 0) ∧
      Instant.Representable (firstMinute 1709162999 + windowDays * Instant.day) ∧
      e.next 1709162999 = .ok 1709163000 := by
  obtain ⟨e, hparse⟩ : ∃ e, parse "30 23 28,29 2 *" = .ok e := ⟨_, rfl⟩
  have hnext : e.next 1706745600 = .ok 1709163000 := by
    cases hparse
    decide +kernel
  have hsuccessive : e.successive 1706745600 3 = .ok [1709163000, 1709249400, 1740785400] := by
    cases hparse
    decide +kernel
  have hbefore : toLex ((1706745600 : Int), 500000000) ≤ toLex (1709162999, 999999999) := by
    rw [Prod.Lex.toLex_le_toLex]
    decide
  have hlater : toLex ((1709162999 : Int), 999999999) < toLex (1709163000, 0) := by
    rw [Prod.Lex.toLex_lt_toLex]
    decide
  obtain ⟨henumerate, hstable⟩ := successive_fires hparse 1706745600 500000000
  exact ⟨e, hparse, hsuccessive, (henumerate 3 _ hsuccessive).2.2, hbefore, hlater, by decide,
    hstable _ hnext _ _ hbefore hlater (by decide)⟩

end Timetable.Cron.Expression
