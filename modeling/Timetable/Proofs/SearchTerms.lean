/-
**Searching for a term.**

A search is meant to find the jobs in whose name or task a term occurs.  It is made with a pattern,
and some characters of a term are read otherwise there: a percent sign and an underscore stand for
other characters, a NUL ends the pattern, and three code points are taken for one.  Every other
character is looked for as it is.  So a term is found where it occurs exactly when none of these
characters is in it.

Main definitions:

* `Text.OccursIn` — a term occurs in a text, the case of ASCII letters aside;
* `Text.Literal` — **no character of a term is read otherwise**;
* `Store.mentioning` — the rows of the jobs in whose name or task a term occurs.

Main results:

* `Text.describes_append_iff`, `Text.foundIn_iff` — what a search looks for;
* `Text.Literal.foundIn_iff` — a literal term is found where it occurs;
* `Text.foundIn_likeness`, `Text.literal_of_occursIn_likeness` — any other term is found elsewhere,
  too;
* `Store.listJobs_mentioning_iff` — **when a search lists the jobs in which a term occurs**.
-/

import Timetable.Proofs.Listing
import Timetable.Proofs.Normalization

set_option autoImplicit false
set_option relaxedAutoImplicit false

namespace Timetable

namespace Text

/-! ### Terms in texts -/

/-- **A term occurs in a text**, the case of ASCII letters aside. -/
def OccursIn (term text : List Char) : Prop :=
  term.map Char.toLower <:+: text.map Char.toLower

instance (term text : List Char) : Decidable (OccursIn term text) :=
  inferInstanceAs (Decidable (_ <:+: _))

/-- The characters that a search does not look for as they are: two that stand for others, the one
that ends a pattern, and three that are taken for the same. -/
def specialChars : List Char :=
  ['%', '_', '\x00', '\ufffd', '\ufffe', '\uffff']

/-- **A term is literal**: a search looks for each of its characters as it is. -/
def Literal (term : List Char) : Prop :=
  ∀ c ∈ term, c ∉ specialChars

instance (term : List Char) : Decidable (Literal term) :=
  List.decidableBAll _ _

/-- What stands before the first NUL of a text. -/
def uncut (cs : List Char) : List Char :=
  cs.takeWhile (· != '\x00')

theorem beforeNul_eq (cs : List Char) : beforeNul cs = (uncut cs).map charRead := rfl

theorem uncut_eq_self {cs : List Char} (h : '\x00' ∉ cs) : uncut cs = cs := by
  refine List.takeWhile_eq_self_iff.2 ?_
  intro c hc
  exact bne_iff_ne.2 fun hnul => h (hnul ▸ hc)

/-! ### Patterns -/

variable {pattern text term : List Char}

/-- The parts of a pattern describe the parts of a text. -/
theorem describes_append_iff {front back : List Char} :
    Describes (front ++ back) text ↔
      ∃ start rest, text = start ++ rest ∧ Describes front start ∧ Describes back rest := by
  constructor
  · induction front generalizing text with
    | nil =>
      intro h
      exact ⟨[], text, rfl, .nil, h⟩
    | cons p front ih =>
      intro h
      cases h with
      | stretch between h =>
        obtain ⟨start, rest, rfl, hstart, hrest⟩ := ih h
        exact ⟨between ++ start, rest, (List.append_assoc _ _ _).symm, .stretch between hstart,
          hrest⟩
      | any c h =>
        obtain ⟨start, rest, rfl, hstart, hrest⟩ := ih h
        exact ⟨c :: start, rest, rfl, .any c hstart, hrest⟩
      | letter hstretch hany same h =>
        obtain ⟨start, rest, rfl, hstart, hrest⟩ := ih h
        exact ⟨_ :: start, rest, rfl, .letter hstretch hany same hstart, hrest⟩
  · rintro ⟨start, rest, rfl, hstart, hrest⟩
    induction hstart with
    | nil => exact hrest
    | stretch between _ ih =>
      rw [List.append_assoc]
      exact .stretch between ih
    | any c _ ih => exact .any c ih
    | letter hstretch hany same _ ih => exact .letter hstretch hany same ih

/-- A character that stands for itself describes the first character of a text. -/
theorem describes_cons_iff {p : Char} (hstretch : p ≠ '%') (hany : p ≠ '_') :
    Describes (p :: pattern) text ↔ ∃ c rest, text = c :: rest ∧ sameLetter p c = true ∧
      Describes pattern rest := by
  constructor
  · intro h
    cases h with
    | stretch => exact absurd rfl hstretch
    | any => exact absurd rfl hany
    | letter _ _ same hrest => exact ⟨_, _, rfl, same, hrest⟩
  · rintro ⟨c, rest, rfl, same, hrest⟩
    exact .letter hstretch hany same hrest

/-- A percent sign describes everything. -/
theorem describes_percent (text : List Char) : Describes ['%'] text := by
  simpa using Describes.stretch text Describes.nil

/-- A pattern between percent signs describes the texts with a part that it describes. -/
theorem describes_between_iff :
    Describes ('%' :: pattern ++ ['%']) text ↔ ∃ part, part <:+: text ∧ Describes pattern part := by
  constructor
  · intro h
    obtain ⟨front, after, rfl, hfront, -⟩ := describes_append_iff.1 h
    have hstretch : Describes (['%'] ++ pattern) front := hfront
    obtain ⟨before, part, rfl, -, hpart⟩ := describes_append_iff.1 hstretch
    exact ⟨part, ⟨before, after, rfl⟩, hpart⟩
  · rintro ⟨part, ⟨before, after, rfl⟩, hpart⟩
    exact describes_append_iff.2
      ⟨before ++ part, after, rfl, .stretch before hpart, describes_percent after⟩

/-- **What a search looks for**: a part of the text that the term describes, if no NUL ends the
pattern. -/
theorem foundIn_iff (h : '\x00' ∉ term) :
    FoundIn term text ↔ ∃ part, part <:+: uncut text ∧
      Describes (term.map charRead) (part.map charRead) := by
  have hpattern : beforeNul ('%' :: term ++ ['%']) = '%' :: term.map charRead ++ ['%'] := by
    rw [beforeNul_eq, uncut_eq_self (by simpa using h)]
    simp [charRead]
  rw [FoundIn, hpattern, beforeNul_eq, describes_between_iff]
  constructor
  · rintro ⟨part, hpart, hdescribes⟩
    obtain ⟨part, hinfix, rfl⟩ := List.infix_map_iff.1 hpart
    exact ⟨part, hinfix, hdescribes⟩
  · rintro ⟨part, hinfix, hdescribes⟩
    exact ⟨part.map charRead, hinfix.map charRead, hdescribes⟩

/-! ### Literal terms -/

/-- Only a special character has the small letter of a special character. -/
theorem eq_of_toLower_eq_special {c d : Char} (h : c.toLower = d.toLower) (hd : d ∈ specialChars) :
    c = d := by
  have hsmall : ∀ d ∈ specialChars, d.toLower = d := by simp [specialChars]
  have hfar : ∀ d ∈ specialChars, d.toNat < 97 ∨ 122 < d.toNat := by simp [specialChars]
  rw [hsmall d hd] at h
  by_cases hcapital : 65 ≤ c.toNat ∧ c.toNat ≤ 90
  · have hnat : d.toNat = c.toNat + 32 := h ▸ toNat_toLower hcapital.1 hcapital.2
    have := hfar d hd
    omega
  · have hsame : c.toLower = c := dif_neg fun hc => hcapital ⟨hc.1, hc.2⟩
    exact hsame ▸ h

/-- A character that is not special is the same as what is read for a character, or as the character
itself. -/
theorem sameLetter_charRead {p c : Char} (hp : p ∉ specialChars) :
    sameLetter p (charRead c) = sameLetter p c := by
  by_cases hc : c = '\ufffe' ∨ c = '\uffff'
  · have hother {d : Char} (hd : d ∈ specialChars) : sameLetter p d = false := by
      refine beq_eq_false_iff_ne.2 fun hsame => hp ?_
      rwa [eq_of_toLower_eq_special hsame hd]
    have hspecial : c ∈ specialChars := by
      rcases hc with rfl | rfl <;> decide
    rw [charRead, if_pos hc, hother hspecial, hother (by decide)]
  · rw [charRead, if_neg hc]

namespace Literal

theorem nul_notMem (h : Literal term) : '\x00' ∉ term :=
  fun hnul => h _ hnul (by decide)

theorem map_charRead (h : Literal term) : term.map charRead = term := by
  refine (List.map_congr_left ?_).trans (List.map_id term)
  intro c hc
  refine if_neg fun hread => h c hc ?_
  rcases hread with rfl | rfl <;> decide

/-- A literal term describes what it is up to the case of letters. -/
theorem describes_iff (h : Literal term) {part : List Char} :
    Describes term (part.map charRead) ↔ term.map Char.toLower = part.map Char.toLower := by
  induction term generalizing part with
  | nil =>
    cases part with
    | nil => exact iff_of_true .nil rfl
    | cons c part => exact iff_of_false (fun h => nomatch h) (fun h => nomatch h)
  | cons p term ih =>
    have hp : p ∉ specialChars := h p List.mem_cons_self
    have hstretch : p ≠ '%' := fun hp' => hp (hp' ▸ by decide)
    have hany : p ≠ '_' := fun hp' => hp (hp' ▸ by decide)
    have hterm : Literal term := fun c hc => h c (List.mem_cons_of_mem _ hc)
    rw [describes_cons_iff hstretch hany]
    cases part with
    | nil => simp
    | cons c part =>
      have hsame : sameLetter p (charRead c) = true ↔ p.toLower = c.toLower := by
        rw [sameLetter_charRead hp, sameLetter, beq_iff_eq]
      simp [hsame, ih hterm]

/-- **A literal term is found where it occurs** before the first NUL. -/
theorem foundIn_iff (h : Literal term) : FoundIn term text ↔ OccursIn term (uncut text) := by
  rw [Text.foundIn_iff h.nul_notMem, h.map_charRead, OccursIn, List.infix_map_iff]
  simp only [h.describes_iff]

end Literal

/-! ### Other terms -/

/-- A character that a search takes for this one; another one if the character is special. -/
def likeChar (c : Char) : Char :=
  if c = '%' ∨ c = '_' then 'x'
  else if c = '\ufffd' then '\ufffe'
  else charRead c

/-- A text that a search takes for the term. -/
def likeness (term : List Char) : List Char :=
  (uncut term).map likeChar

theorem charRead_likeChar {c : Char} (hstretch : c ≠ '%') (hany : c ≠ '_') :
    charRead (likeChar c) = charRead c := by
  rw [likeChar, if_neg (by simp [hstretch, hany])]
  split
  next hread => rw [hread]; decide
  next =>
    by_cases hc : c = '\ufffe' ∨ c = '\uffff'
    · rcases hc with rfl | rfl <;> decide
    · have hread : charRead c = c := if_neg hc
      rw [hread, hread]

theorem describes_map_likeChar (cs : List Char) :
    Describes (cs.map charRead) ((cs.map likeChar).map charRead) := by
  induction cs with
  | nil => exact .nil
  | cons c cs ih =>
    by_cases hstretch : c = '%'
    · subst hstretch
      exact .stretch ['x'] ih
    by_cases hany : c = '_'
    · subst hany
      exact .any 'x' ih
    · rw [List.map_cons, List.map_cons, List.map_cons, charRead_likeChar hstretch hany]
      have hletter (p : Char) (hp : p = '%' ∨ p = '_') : charRead c ≠ p := by
        rw [charRead]
        split <;> grind
      exact .letter (hletter _ (.inl rfl)) (hletter _ (.inr rfl)) (beq_self_eq_true _) ih

theorem nul_notMem_likeness (term : List Char) : '\x00' ∉ likeness term := by
  have hnul : ∀ c ∈ uncut term, c ≠ '\x00' := by
    intro c hc
    simpa using List.mem_takeWhile_imp hc
  rw [likeness, List.mem_map]
  rintro ⟨c, hc, hlike⟩
  have := hnul c hc
  simp only [likeChar, charRead] at hlike
  grind

/-- **A term is found in its likeness**, where nothing stands around it. -/
theorem foundIn_likeness (term : List Char) : FoundIn term (likeness term) := by
  -- the percent sign behind the term is only read if no NUL stands before it
  obtain ⟨back, hpattern, hback⟩ : ∃ back, uncut (term ++ ['%']) = uncut term ++ back ∧
      Describes (back.map charRead) [] := by
    by_cases hwhole : (uncut term).length = term.length
    · have hwhole' : uncut term = term := (List.takeWhile_prefix _).eq_of_length hwhole
      refine ⟨['%'], ?_, describes_percent []⟩
      rw [hwhole', uncut, List.takeWhile_append, ← uncut, if_pos hwhole]
      rfl
    · refine ⟨[], ?_, .nil⟩
      rw [List.append_nil, uncut, List.takeWhile_append, ← uncut, if_neg hwhole]
  have hread : beforeNul ('%' :: term ++ ['%']) =
      '%' :: (uncut term).map charRead ++ back.map charRead := by
    rw [beforeNul_eq, List.cons_append, uncut, List.takeWhile_cons_of_pos (by decide), ← uncut,
      hpattern, List.map_cons, List.map_append]
    rfl
  rw [FoundIn, hread, beforeNul_eq, uncut_eq_self (nul_notMem_likeness term)]
  exact describes_append_iff.2 ⟨_, [], (List.append_nil _).symm,
    .stretch [] (describes_map_likeChar (uncut term)), hback⟩

theorem toLower_likeChar_ne {c : Char} (hspecial : c ∈ specialChars) (hnul : c ≠ '\x00') :
    (likeChar c).toLower ≠ c.toLower := by
  simp only [specialChars, List.mem_cons, List.not_mem_nil, or_false] at hspecial
  obtain rfl | rfl | rfl | rfl | rfl | rfl := hspecial
  case inr.inr.inl => exact absurd rfl hnul
  all_goals decide

/-- **A term that occurs in its likeness is literal.** -/
theorem literal_of_occursIn_likeness (h : OccursIn term (likeness term)) : Literal term := by
  have hprefix : uncut term <+: term := List.takeWhile_prefix _
  have hlength : (uncut term).length = term.length := by
    have := h.length_le
    have := hprefix.length_le
    simp only [likeness, List.length_map] at *
    omega
  -- nothing is cut off, so the term and its likeness agree character by character
  have hwhole : uncut term = term := hprefix.eq_of_length hlength
  have hsame : term.map Char.toLower = (likeness term).map Char.toLower := by
    refine h.eq_of_length ?_
    simp only [likeness, List.length_map, hlength]
  rw [likeness, hwhole, List.map_map, List.map_inj_left] at hsame
  intro c hc hspecial
  have hnul : c ≠ '\x00' := by
    rw [← hwhole] at hc
    simpa using List.mem_takeWhile_imp hc
  exact toLower_likeChar_ne hspecial hnul (hsame c hc).symm

end Text

open Text

/-! ### Listings -/

/-- **A term with no blank in it** is its own only word, if there is anything in it. -/
theorem Text.all_words {term : String} (h : ∀ c ∈ term.toList, isBlank c = false)
    (found : String → Bool) :
    (words term).all found = (term == "" || found term) := by
  rw [words, wordChars_eq, pieces, List.splitOnP_eq_singleton h]
  by_cases hempty : term = ""
  · simp [hempty]
  · have hchars : term.toList ≠ [] := by simpa using hempty
    simp [hempty, hchars]

namespace Store

/-- A job mentions a term: the term occurs in its name or in its task. -/
def Mentions (r : JobRow) (term : String) : Prop :=
  OccursIn term.toList r.name.toList ∨ OccursIn term.toList r.task.toList

instance (r : JobRow) (term : String) : Decidable (Mentions r term) :=
  inferInstanceAs (Decidable (_ ∨ _))

/-- The rows of the jobs that mention a term. -/
def mentioning (s : Store) (term : String) : Store :=
  { s with jobs := s.jobs.filter (Mentions · term) }

/-- No name and no task is cut off by a NUL. -/
def Uncut (s : Store) : Prop :=
  ∀ r ∈ s.jobs, '\x00' ∉ r.name.toList ∧ '\x00' ∉ r.task.toList

variable {s : Store} {q : JobQuery} {r : JobRow} {term : String}

/-- A search for a literal term selects the rows that mention it among those that are selected
without it. -/
theorem selects_text (hterm : ∀ c ∈ term.toList, isBlank c = false) (hliteral : Literal term.toList)
    (hname : '\x00' ∉ r.name.toList) (htask : '\x00' ∉ r.task.toList) :
    selects { q with text := some term } r =
      (selects { q with text := none } r && decide (Mentions r term)) := by
  have hfound {text : String} (htext : '\x00' ∉ text.toList) :
      contains term text = true ↔ OccursIn term.toList text.toList := by
    rw [contains_iff, hliteral.foundIn_iff, uncut_eq_self htext]
  have hmentions : (term == "" || (contains term r.name || contains term r.task)) =
      decide (Mentions r term) := by
    rw [Bool.eq_iff_iff, decide_eq_true_iff, Bool.or_eq_true, Bool.or_eq_true, hfound hname,
      hfound htask, beq_iff_eq]
    refine or_iff_right_of_imp ?_
    rintro rfl
    exact Or.inl (List.nil_infix)
  simp only [selects, JobQuery.terms, Option.getD_some, Option.getD_none, all_words hterm,
    hmentions]
  simp [words, wordChars]

theorem listJobs_mentioning (hterm : ∀ c ∈ term.toList, isBlank c = false)
    (hliteral : Literal term.toList) (hs : s.Uncut) (q : JobQuery) :
    s.listJobs { q with text := some term } =
      (s.mentioning term).listJobs { q with text := none } := by
  have hselected : s.jobs.filter (selects { q with text := some term }) =
      (s.mentioning term).jobs.filter (selects { q with text := none }) := by
    rw [mentioning, List.filter_filter]
    refine List.filter_congr ?_
    intro r hr
    exact selects_text hterm hliteral (hs r hr).1 (hs r hr).2
  rw [listJobs, listJobs, hselected]
  rfl

/-- The row of a job whose name and task are the likeness of a term. -/
def likenessRow (term : String) : JobRow :=
  .ofSpec "job:0" (.interval (.ofList (likeness term.toList)) (.ofList (likeness term.toList)) 3600)
    0

/-- The tables with that row only. -/
def likened (term : String) : Store :=
  { jobs := [likenessRow term], jobSerial := 1 }

theorem name_likenessRow (term : String) : (likenessRow term).name.toList = likeness term.toList :=
  String.toList_ofList

theorem task_likenessRow (term : String) : (likenessRow term).task.toList = likeness term.toList :=
  String.toList_ofList

theorem uncut_likened (term : String) : (likened term).Uncut := by
  intro r hr
  rw [List.mem_singleton.1 hr, name_likenessRow, task_likenessRow]
  exact ⟨nul_notMem_likeness _, nul_notMem_likeness _⟩

/-- A search for a term finds the job that is like it. -/
theorem mem_listJobs_likened (hterm : ∀ c ∈ term.toList, isBlank c = false) :
    (likenessRow term).decode ∈ (likened term).listJobs { text := some term } := by
  have hname : contains term (likenessRow term).name = true := by
    rw [contains_iff, name_likenessRow]
    exact foundIn_likeness term.toList
  have hselects : selects { text := some term } (likenessRow term) = true := by
    simp [selects, JobQuery.terms, all_words hterm, hname]
  simp [listJobs, likened, hselects, JobQuery.effectiveLimit, JobQuery.defaultLimit]

/-- **A search lists the jobs that mention a term exactly when the term is literal.** -/
theorem listJobs_mentioning_iff (hterm : ∀ c ∈ term.toList, isBlank c = false) :
    (∀ (s : Store) (q : JobQuery), s.Uncut →
      s.listJobs { q with text := some term } =
      (s.mentioning term).listJobs { q with text := none }) ↔
        Literal term.toList := by
  constructor
  · intro h
    have hlisted := mem_listJobs_likened hterm
    rw [h (likened term) {} (uncut_likened term), listJobs_eq] at hlisted
    -- the job is among those that mention the term, and there is only one row
    obtain ⟨r, hr, -⟩ := List.mem_map.1 (List.mem_of_mem_take hlisted)
    obtain ⟨hmem, hmentions⟩ := List.mem_filter.1 (mem_orderedRows.1 hr).1
    rw [List.mem_singleton.1 hmem, decide_eq_true_iff, Mentions, name_likenessRow, task_likenessRow,
      or_self] at hmentions
    exact literal_of_occursIn_likeness hmentions
  · intro hliteral s q hs
    exact listJobs_mentioning hterm hliteral hs q

/-- The term of a word is literal, and a job is found by it whatever the case of its letters. -/
theorem listJobs_mentioning_report :
    (∀ c ∈ "Report".toList, isBlank c = false) ∧ Literal "Report".toList ∧
      ∀ (s : Store) (q : JobQuery), s.Uncut →
        s.listJobs { q with text := some "Report" } =
          (s.mentioning "Report").listJobs { q with text := none } := by
  have hterm : ∀ c ∈ "Report".toList, isBlank c = false := by simp [isBlank]
  have hliteral : Literal "Report".toList := by simp [Literal, specialChars]
  exact ⟨hterm, hliteral, (listJobs_mentioning_iff hterm).2 hliteral⟩

/-- **Not every term is found only where it occurs**: an underscore is found where there is any
character. -/
theorem not_always_listJobs_mentioning :
    ¬ ∀ (term : String), (∀ c ∈ term.toList, isBlank c = false) →
      ∀ (s : Store) (q : JobQuery), s.Uncut →
      s.listJobs { q with text := some term } =
        (s.mentioning term).listJobs { q with text := none } := by
  intro h
  have hterm : ∀ c ∈ "r_port".toList, isBlank c = false := by simp [isBlank]
  have hlisted := mem_listJobs_likened hterm
  have hnone : ((likened "r_port").mentioning "r_port").listJobs {} = [] := by decide +kernel
  rw [h "r_port" hterm (likened "r_port") {} (uncut_likened "r_port"), hnone] at hlisted
  exact List.not_mem_nil hlisted

end Store

end Timetable
