/-
**Expressions as they are shown.**

An expression is shown as its words with single spaces between them, however it was typed.  What is
shown can be typed in again: joining words with spaces and splitting the result at blanks gives the
words back, since no word is empty and none has a blank in it, and everything else that is kept of
an expression is read off its words.  So an expression that was read is its words, and nothing of
how they were spaced.

Main results:

* `Text.pieces_intercalate` — **joining and splitting are inverse** on pieces that can be told
  apart;
* `Cron.Expression.parse_congr` — what is read depends on the words alone;
* `Cron.Expression.parse_shown` — **what is shown is read as what it shows**, and expressions are
  equal when their words are.
-/

import Timetable.Proofs.Cron.Grammar

set_option autoImplicit false
set_option relaxedAutoImplicit false

namespace Timetable

/-! ### Joining and splitting -/

namespace Text

variable {p : Char → Bool} {cs w : List Char} {sep : Char}

/-- A piece is not empty, and no separator is in it. -/
theorem of_mem_pieces (h : w ∈ pieces p cs) : w ≠ [] ∧ ∀ c ∈ w, p c = false := by
  obtain ⟨hmem, hne⟩ := List.mem_filter.1 h
  rw [← splitWhere_eq_splitOnP] at hmem
  exact ⟨by simpa using hne, fun c hc => (of_mem_splitWhere hmem hc).2⟩

/-- What stands in front of a separator is split apart from what stands behind it. -/
theorem pieces_append_cons (hsep : p sep = true) (front back : List Char) :
    pieces p (front ++ sep :: back) = pieces p front ++ pieces p back := by
  rw [pieces, List.splitOnP_append_cons front back hsep, List.filter_append]
  rfl

theorem pieces_eq_singleton (hne : w ≠ []) (hw : ∀ c ∈ w, p c = false) : pieces p w = [w] := by
  rw [pieces, List.splitOnP_eq_singleton hw]
  exact List.filter_cons_of_pos (by simpa using hne)

/-- **Joining and splitting are inverse**, where no piece is empty and no separator is in one. -/
theorem pieces_intercalate (hsep : p sep = true) {ws : List (List Char)}
    (hws : ∀ w ∈ ws, w ≠ [] ∧ ∀ c ∈ w, p c = false) : pieces p ([sep].intercalate ws) = ws := by
  induction ws with
  | nil => rfl
  | cons w rest ih =>
    obtain ⟨⟨hne, hw⟩, hrest⟩ := List.forall_mem_cons.1 hws
    cases rest with
    | nil =>
      rw [List.intercalate_singleton]
      exact pieces_eq_singleton hne hw
    | cons v rest =>
      rw [List.intercalate_cons_cons, List.append_assoc, List.singleton_append,
        pieces_append_cons hsep, pieces_eq_singleton hne hw, ih hrest]
      rfl

/-- The words of a text with single spaces between them are still its words. -/
theorem words_unwords_words (s : String) : words (unwords (words s)) = words s := by
  have hws : (words s).map String.toList = pieces isBlank s.toList :=
    ((words_eq_iff s _).1 rfl).symm
  rw [words_eq_iff, unwords, String.toList_intercalate, hws]
  exact pieces_intercalate (by decide) fun w hw => of_mem_pieces hw

end Text

/-! ### Expressions -/

namespace Cron.Expression

open Text

variable {a b text : String} {e e' : Expression}

/-- **What is read depends on the words alone.** -/
theorem parse_congr (hwords : words a = words b) (h : parse a = .ok e) : parse b = .ok e := by
  unfold parse at h ⊢
  rw [← hwords]
  -- without five words there would be a refusal, and only a refusal quotes the text
  split at h
  · exact h
  · cases h

/-- An expression shows the words that it was read from. -/
theorem words_source (h : parse text = .ok e) : words e.source = words text := by
  rw [source_parse h, words_unwords_words]

/-- **What is shown is read as what it shows.** -/
theorem parse_source (h : parse text = .ok e) : parse e.source = .ok e :=
  parse_congr (words_source h).symm h

/-- **Showing and reading are inverse.**  What an expression shows is read as that expression, the
same in all its parts, so that showing it again gives the same text; and two texts that are read are
read as the same expression exactly when they have the same words between their blanks. -/
theorem parse_shown :
    (∀ text e, parse text = .ok e → parse e.source = .ok e) ∧
    ∀ a b e e', parse a = .ok e → parse b = .ok e' →
      (e = e' ↔ pieces isBlank a.toList = pieces isBlank b.toList) := by
  refine ⟨fun text e h => parse_source h, fun a b e e' ha hb => ?_⟩
  have hpieces : pieces isBlank a.toList = pieces isBlank b.toList ↔ words a = words b := by
    rw [eq_comm (a := words a), words_eq_iff, ← (words_eq_iff a _).1 rfl, eq_comm]
  rw [hpieces]
  constructor
  · intro heq
    rw [← words_source ha, ← words_source hb, heq]
  · intro hwords
    have hb' : parse b = .ok e := parse_congr hwords ha
    exact Except.ok.inj (hb'.symm.trans hb)

/-- Nine in the morning, typed with a tab, several spaces and an ideographic space, and typed as it
is shown. -/
theorem parse_shown_morning :
    ∃ e, parse "\t0   9 * *\u3000 * " = .ok e ∧ parse "0 9 * * *" = .ok e ∧
    parse e.source = .ok e ∧
    pieces isBlank "\t0   9 * *\u3000 * ".toList = pieces isBlank "0 9 * * *".toList := by
  have htyped : parse "\t0   9 * *\u3000 * " =
      .ok ⟨"0 9 * * *", .only 1, .only 512, .all, .all, .all, false, false⟩ := by decide +kernel
  have hplain : parse "0 9 * * *" =
      .ok ⟨"0 9 * * *", .only 1, .only 512, .all, .all, .all, false, false⟩ := by decide +kernel
  exact ⟨_, htyped, hplain, parse_shown.1 _ _ htyped, (parse_shown.2 _ _ _ _ htyped hplain).1 rfl⟩

end Cron.Expression

end Timetable
