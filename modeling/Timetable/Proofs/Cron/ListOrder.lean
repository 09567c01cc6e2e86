/-
**The order of a list.**

The parts of a list are read from the left, and a star ends the reading, so what stands behind a
star is never looked at.  A part that the field refuses is therefore found in front of a star and
overlooked behind it.  This module shows that the order of a list can change nothing else: a list
that does not hold a star beside a part that is refused is read alike in every order, and a list
that does is accepted in one order and refused in another.

Main definitions:

* `Cron.Field.Rearranged` — two words have the same pieces between their commas;
* `Cron.Field.Alike` — two words are both refused, or read as the same values;
* `Cron.Field.Refuses`, `Cron.Field.Mixed` — a part that is refused, and a list that holds one
  beside a star.

Main results:

* `Cron.Field.exists_read_iff_of_not_mixed` — which lists are read, in whatever order;
* `Cron.Field.eq_of_read_rearranged` — lists that are read in two orders are read as the same
  values;
* `Cron.Field.exists_rearranged` — any part of a list can be put in front;
* `Cron.Field.alike_iff` — **the order matters exactly where a star hides what is refused**.
-/

import Mathlib.Data.List.TakeWhile
import Timetable.Proofs.Cron.Grammar

set_option autoImplicit false
set_option relaxedAutoImplicit false

namespace Timetable.Cron.Field

open Text

/-! ### Lists in another order -/

/-- **Two words have the same pieces between their commas**, in one order or another. -/
def Rearranged (word word' : String) : Prop :=
  (word.toList.splitOn ',').Perm (word'.toList.splitOn ',')

/-- **Two words are read alike**: both are refused, or both are read as the same values. -/
def Alike (f : Field) (word word' : String) : Prop :=
  (∃ e e', f.read word = .error e ∧ f.read word' = .error e') ∨
    ∃ vs, f.read word = .ok vs ∧ f.read word' = .ok vs

/-- A part that a field refuses is no star, and the field cannot list it. -/
def Refuses (f : Field) (part : List Char) : Prop := part ≠ ['*'] ∧ ¬ f.Lists part

/-- A list that holds a star, and a part that is refused. -/
def Mixed (f : Field) (word : String) : Prop :=
  ['*'] ∈ partsOf word.toList ∧ ∃ part ∈ partsOf word.toList, f.Refuses part

variable {f : Field} {part : List Char} {ps qs : List (List Char)} {word word' : String}
  {mask : Nat} {vs vs' : Values}

theorem partsOf_eq (cs : List Char) :
    partsOf cs = ((cs.splitOn ',').map trimChars).filter fun p => !p.isEmpty := by
  rw [partsOf, splitWhere_eq_splitOnP, List.splitOn_eq_splitOnP]

/-- Words with the same pieces have the same parts. -/
theorem Rearranged.parts (h : Rearranged word word') :
    (partsOf word.toList).Perm (partsOf word'.toList) := by
  rw [partsOf_eq, partsOf_eq]
  exact (h.map _).filter _

/-- **Any part of a list can be put in front.** -/
theorem exists_rearranged (h : part ∈ partsOf word.toList) :
    ∃ word' rest, Rearranged word word' ∧ partsOf word'.toList = part :: rest := by
  rw [partsOf_eq, List.mem_filter, List.mem_map] at h
  obtain ⟨⟨piece, hpiece, rfl⟩, hne⟩ := h
  obtain ⟨others, hperm⟩ : ∃ others, (word.toList.splitOn ',').Perm (piece :: others) :=
    ⟨_, List.perm_cons_erase hpiece⟩
  -- the pieces have no commas, so joining them in the other order and splitting again gives them
  -- back
  have hcomma : ∀ p ∈ piece :: others, ',' ∉ p := by
    intro p hp hc
    have hmem := hperm.symm.subset hp
    rw [List.splitOn_eq_splitOnP, ← splitWhere_eq_splitOnP] at hmem
    simpa using (of_mem_splitWhere hmem hc).2
  have hsplit := List.splitOn_intercalate ',' hcomma (List.cons_ne_nil _ _)
  refine ⟨String.ofList ([','].intercalate (piece :: others)),
    (others.map trimChars).filter fun p => !p.isEmpty, ?_, ?_⟩
  · rwa [Rearranged, String.toList_ofList, hsplit]
  · rw [partsOf_eq, String.toList_ofList, hsplit, List.map_cons]
    exact List.filter_cons_of_pos hne

/-! ### What is read -/

/-- A bare star is a list of one part. -/
theorem read_eq_readParts (f : Field) (word : String) :
    f.read word = f.readParts word 0 (partsOf word.toList) := by
  unfold read
  split
  · rename_i hstar
    have hparts : partsOf word.toList = [['*']] := by
      rw [hstar]
      decide
    rw [hparts]
    rfl
  · rfl

theorem refuses_iff : f.Refuses part ↔ ∃ e, f.readPart part = .error e := by
  rw [Refuses, ne_eq, ← readPart_eq_star_iff (f := f), lists_iff]
  cases f.readPart part with
  | error e => simp
  | ok p => cases p <;> simp

/-- Where no star hides a part that is refused, reading up to the first star finds it. -/
theorem forall_takeWhile_lists_iff (h : ¬ (['*'] ∈ ps ∧ ∃ part ∈ ps, f.Refuses part)) :
    (∀ part ∈ ps.takeWhile (· ≠ ['*']), f.Lists part) ↔ ∀ part ∈ ps, ¬ f.Refuses part := by
  constructor
  · intro hlists part hpart hrefused
    have hstar : ['*'] ∉ ps := fun hstar => h ⟨hstar, part, hpart, hrefused⟩
    have hall : ps.takeWhile (· ≠ ['*']) = ps :=
      List.takeWhile_eq_self_iff.2 fun p hp => by simpa using ne_of_mem_of_not_mem hp hstar
    rw [hall] at hlists
    exact hrefused.2 (hlists part hpart)
  · intro hnone part hpart
    have hne : part ≠ ['*'] := by simpa using List.mem_takeWhile_imp hpart
    by_contra hlists
    exact hnone part ((List.takeWhile_prefix _).subset hpart) ⟨hne, hlists⟩

/-- **Which lists are read**, in whatever order, if no star hides a part that is refused: those that
have parts, none of which is refused. -/
theorem exists_read_iff_of_not_mixed (h : ¬ f.Mixed word) :
    (∃ vs, f.read word = .ok vs) ↔
      partsOf word.toList ≠ [] ∧ ∀ part ∈ partsOf word.toList, ¬ f.Refuses part := by
  rw [read_eq_readParts, exists_readParts_iff, forall_takeWhile_lists_iff h]
  simp

/-- With a star among the parts, every value is admitted. -/
theorem eq_all_of_readParts (h : f.readParts word mask ps = .ok vs) (hstar : ['*'] ∈ ps) :
    vs = .all := by
  induction ps generalizing mask with
  | nil => cases hstar
  | cons part rest ih =>
    simp only [readParts] at h
    split at h
    · cases h
    · cases h
      rfl
    · rename_i ws he
      have hne : ['*'] ≠ part := by simp [eq_comm, ← readPart_eq_star_iff (f := f), he]
      exact ih h ((List.mem_cons.1 hstar).resolve_left hne)

/-- Without one, the values are those that were collected and those that the parts list. -/
theorem eq_only_of_readParts (h : f.readParts word mask ps = .ok vs) (hstar : ['*'] ∉ ps) :
    ∃ m, vs = .only m ∧ ∀ v, m.testBit v = true ↔
      mask.testBit v = true ∨ ∃ part ∈ ps, ∃ ws, f.readPart part = .ok (.values ws) ∧ v ∈ ws := by
  induction ps generalizing mask with
  | nil =>
    simp only [readParts] at h
    split at h
    · cases h
    · cases h
      exact ⟨mask, rfl, by simp⟩
  | cons part rest ih =>
    simp only [readParts] at h
    split at h
    · cases h
    · rename_i he
      exact absurd (readPart_eq_star_iff.1 he ▸ List.mem_cons_self) hstar
    · rename_i ws he
      obtain ⟨m, hm, hbits⟩ := ih h fun hmem => hstar (List.mem_cons_of_mem part hmem)
      refine ⟨m, hm, fun v => ?_⟩
      rw [hbits, Nat.testBit_or, Bool.or_eq_true, testBit_maskOf, or_assoc]
      simp [he]

/-- **Lists that are read in two orders are read as the same values.** -/
theorem eq_of_read_rearranged (h : Rearranged word word') (hread : f.read word = .ok vs)
    (hread' : f.read word' = .ok vs') : vs = vs' := by
  rw [read_eq_readParts] at hread hread'
  have hmem (part : List Char) := h.parts.mem_iff (a := part)
  by_cases hstar : ['*'] ∈ partsOf word.toList
  · rw [eq_all_of_readParts hread hstar, eq_all_of_readParts hread' ((hmem _).1 hstar)]
  · obtain ⟨m, rfl, hbits⟩ := eq_only_of_readParts hread hstar
    obtain ⟨m', rfl, hbits'⟩ := eq_only_of_readParts hread' (mt (hmem _).2 hstar)
    congr 1
    refine Nat.eq_of_testBit_eq fun v => Bool.eq_iff_iff.2 ?_
    simp only [hbits, hbits', hmem]

/-! ### When the order matters -/

theorem exists_error_iff : (∃ e, f.read word = .error e) ↔ ¬ ∃ vs, f.read word = .ok vs := by
  cases f.read word <;> simp

/-- Without a star that hides what is refused, a list is read alike in every order. -/
theorem Rearranged.alike (h : Rearranged word word') (hmixed : ¬ f.Mixed word) :
    f.Alike word word' := by
  have hmem (part : List Char) := h.parts.mem_iff (a := part)
  have hmixed' : ¬ f.Mixed word' := by simpa only [Mixed, hmem] using hmixed
  have hiff : (∃ vs, f.read word = .ok vs) ↔ ∃ vs, f.read word' = .ok vs := by
    have hnil : partsOf word.toList = [] ↔ partsOf word'.toList = [] :=
      ⟨fun h' => (h' ▸ h.parts).nil_eq.symm, fun h' => (h' ▸ h.parts).eq_nil⟩
    rw [exists_read_iff_of_not_mixed hmixed, exists_read_iff_of_not_mixed hmixed', ne_eq, hnil]
    simp only [hmem, ne_eq]
  by_cases hread : ∃ vs, f.read word = .ok vs
  · obtain ⟨vs', hvs'⟩ := hiff.1 hread
    obtain ⟨vs, hvs⟩ := hread
    exact Or.inr ⟨vs, hvs, eq_of_read_rearranged h hvs hvs' ▸ hvs'⟩
  · obtain ⟨e, he⟩ := exists_error_iff.2 hread
    obtain ⟨e', he'⟩ := exists_error_iff.2 (mt hiff.2 hread)
    exact Or.inl ⟨e, e', he, he'⟩

/-- **The order of a list matters exactly where a star hides what is refused.**  A list is read
alike in every order, which means that it is refused in all of them or read as the same values in
all of them, unless one of its parts is a star and another one is refused: a number outside the
range of the field, a step without a positive number, or no number at all.  Such a list is refused
or accepted as the one or the other comes first. -/
theorem alike_iff (f : Field) (word : String) :
    (∀ word', Rearranged word word' → f.Alike word word') ↔ ¬ f.Mixed word := by
  refine ⟨?_, fun hmixed word' h => h.alike hmixed⟩
  rintro halike ⟨hstar, part, hpart, hrefused⟩
  obtain ⟨first, others, hfirst, hparts⟩ := exists_rearranged hstar
  obtain ⟨last, others', hlast, hparts'⟩ := exists_rearranged hpart
  have hall : f.read first = .ok .all := by
    rw [read_eq_readParts, hparts]
    rfl
  obtain ⟨e, he⟩ := refuses_iff.1 hrefused
  have hnone : f.read last = .error e := by
    rw [read_eq_readParts, hparts']
    simp only [readParts, he]
  rcases halike first hfirst with ⟨_, _, _, hrefuses⟩ | ⟨vs, haccepts, -⟩
  · cases hall.symm.trans hrefuses
  · rcases halike last hlast with ⟨_, _, hrefuses, -⟩ | ⟨_, -, haccepts'⟩
    · cases haccepts.symm.trans hrefuses
    · cases hnone.symm.trans haccepts'

/-- Ninety-nine is no minute, and a star hides it. -/
theorem not_always_alike :
    ¬ ∀ (f : Field) (word word' : String), Rearranged word word' → f.Alike word word' := by
  intro h
  have hfirst : minute.read "*,99" = .ok .all := by decide +kernel
  have hlast : minute.read "99,*" = .error (.outOfRange 99) := by decide +kernel
  have hrearranged : Rearranged "*,99" "99,*" := by
    simp only [Rearranged, List.splitOn_eq_splitOnP, ← splitWhere_eq_splitOnP]
    decide +kernel
  rcases h minute _ _ hrearranged with ⟨_, _, hrefuses, -⟩ | ⟨_, -, haccepts⟩
  · cases hfirst.symm.trans hrefuses
  · cases hlast.symm.trans haccepts

end Timetable.Cron.Field
