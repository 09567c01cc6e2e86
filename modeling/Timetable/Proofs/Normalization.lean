/-
**Specifications are normalised once and for all.**

Checking a specification drops what carries no meaning: blanks around a text, texts of nothing but
blanks, numbers that are not positive, and the case of the letters in which the policy is written.
So what has passed the check passes it again unchanged, and whether and how a specification passes
does not depend on what is dropped.  Both are stated here of the characters of the texts, without
the functions that trim them.

Main definitions:

* `Text.Trimmed`, `Text.SameBut` — a text without blanks at its ends, and texts that differ by such
  blanks;
* `JobSpec.texts`, `JobSpec.Tidy` — **a specification in normal form, with all its texts**;
* `JobSpec.Alike`, `JobSpec.SameOutcome` — **specifications that mean the same**, and what they come
  to.

Main results:

* `Text.trim_eq_self_iff`, `Text.trim_eq_trim_iff` — what trimming leaves alone, and what it makes
  equal;
* `JobSpec.validate_eq_self_iff` — what passes the check unchanged is what is in normal form;
* `JobSpec.Alike.sameOutcome` — specifications that mean the same come to the same;
* `JobSpec.validate_normalizes` — **checking normalises once and for all**.
-/

import Mathlib.Data.List.Forall2
import Timetable.Proofs.Specification
import Timetable.Text.Pattern

set_option autoImplicit false
set_option relaxedAutoImplicit false

namespace Timetable

/-! ### Blanks around a text -/

namespace Text

/-- A stretch of nothing but blanks. -/
def AllBlank (cs : List Char) : Prop := ∀ c ∈ cs, isBlank c = true

/-- **A trimmed text** neither begins nor ends with a blank. -/
def Trimmed (s : String) : Prop :=
  (∀ c ∈ s.toList.head?, isBlank c = false) ∧ ∀ c ∈ s.toList.getLast?, isBlank c = false

/-- A text with blanks around it. -/
def Padded (core cs : List Char) : Prop :=
  ∃ before after, AllBlank before ∧ AllBlank after ∧ cs = before ++ core ++ after

/-- **Two texts are the same but for the blanks around them**, character by character. -/
def SameBut (same : Char → Char → Prop) (s t : String) : Prop :=
  ∃ core core', Padded core s.toList ∧ Padded core' t.toList ∧ List.Forall₂ same core core'

/-- A text is left out: it is absent, or there are only blanks. -/
def LeftOut (text : Option String) : Prop := ∀ s ∈ text, AllBlank s.toList

/-- Two texts that may be left out are both left out, or the same but for the blanks around them. -/
inductive SameOption (same : Char → Char → Prop) : Option String → Option String → Prop where
  /-- Both are given. -/
  | given {s t : String} (h : SameBut same s t) : SameOption same (some s) (some t)
  /-- Both are left out. -/
  | leftOut {a b : Option String} (ha : LeftOut a) (hb : LeftOut b) : SameOption same a b

variable {core cs : List Char} {s t : String} {a b : Option String}

/-- **Blanks around a text are trimmed.** -/
theorem trimChars_of_padded (h : Padded core cs) : trimChars cs = trimChars core := by
  obtain ⟨before, after, hbefore, hafter, rfl⟩ := h
  rw [trimChars, List.append_assoc, List.dropWhile_append_of_pos hbefore, List.dropWhile_append]
  split
  · rename_i hempty
    rw [trimChars, List.isEmpty_iff.1 hempty, List.dropWhile_eq_nil_iff.2 hafter]
  · have hback : ∀ c ∈ after.reverse, isBlank c = true :=
      fun c hc => hafter c (List.mem_reverse.1 hc)
    rw [List.reverse_append, List.dropWhile_append_of_pos hback, trimChars]

/-- A text is what is left of it after trimming, with blanks around it. -/
theorem padded_trimChars (cs : List Char) : Padded (trimChars cs) cs := by
  refine ⟨cs.takeWhile isBlank, ((cs.dropWhile isBlank).reverse.takeWhile isBlank).reverse,
    fun c hc => List.mem_takeWhile_imp hc,
    fun c hc => List.mem_takeWhile_imp (List.mem_reverse.1 hc), ?_⟩
  rw [List.append_assoc, trimChars, ← List.reverse_append, List.takeWhile_append_dropWhile,
    List.reverse_reverse, List.takeWhile_append_dropWhile]

theorem dropWhile_isBlank_eq_self_iff :
    cs.dropWhile isBlank = cs ↔ ∀ c ∈ cs.head?, isBlank c = false := by
  rw [List.dropWhile_eq_self_iff]
  cases cs <;> simp

/-- **What trimming leaves alone** is what is trimmed. -/
theorem trim_eq_self_iff : trim s = s ↔ Trimmed s := by
  have hchars : trim s = s ↔ trimChars s.toList = s.toList := by
    rw [← String.toList_inj, toList_trim]
  rw [hchars, Trimmed, ← dropWhile_isBlank_eq_self_iff, ← List.head?_reverse,
    ← dropWhile_isBlank_eq_self_iff]
  constructor
  · intro h
    have hfront : s.toList.dropWhile isBlank = s.toList := by
      rw [← h]
      exact dropWhile_trimChars s.toList
    refine ⟨hfront, ?_⟩
    rw [trimChars, hfront] at h
    exact List.reverse_eq_iff.1 h
  · rintro ⟨hfront, hback⟩
    rw [trimChars, hfront, hback, List.reverse_reverse]

/-- What is blank is left out, and nothing else. -/
theorem nonBlank?_eq_none_iff : nonBlank? s = none ↔ AllBlank s.toList := by
  have hempty : nonBlank? s = none ↔ trimChars s.toList = [] := by
    simp [nonBlank?, trim, ← String.toList_inj]
  rw [hempty]
  constructor
  · intro h
    obtain ⟨before, after, hbefore, hafter, hs⟩ := padded_trimChars s.toList
    rw [hs, h, List.append_nil]
    exact fun c hc => (List.mem_append.1 hc).elim (hbefore c) (hafter c)
  · intro h
    rw [trimChars, List.dropWhile_eq_nil_iff.2 h]
    rfl

theorem nonBlank?_eq_self_iff : nonBlank? s = some s ↔ Trimmed s ∧ s ≠ "" := by
  rw [← trim_eq_self_iff]
  constructor
  · exact fun h => ⟨(nonBlank?_eq_some h).1.symm, (nonBlank?_eq_some h).2⟩
  · rintro ⟨htrim, hne⟩
    simp only [nonBlank?, htrim, if_neg hne]

/-- **What trimming makes equal** are the texts that differ only by blanks around them. -/
theorem trim_eq_trim_iff : trim s = trim t ↔ SameBut Eq s t := by
  have hchars : trim s = trim t ↔ trimChars s.toList = trimChars t.toList := by
    rw [← String.toList_inj, toList_trim, toList_trim]
  rw [hchars, SameBut, List.forall₂_eq_eq_eq]
  constructor
  · exact fun h => ⟨_, _, padded_trimChars s.toList, padded_trimChars t.toList, h⟩
  · rintro ⟨core, _, hs, ht, rfl⟩
    rw [trimChars_of_padded hs, trimChars_of_padded ht]

/-- Blanks around a text do not matter. -/
theorem nonBlank?_congr (h : SameBut Eq s t) : nonBlank? s = nonBlank? t := by
  rw [nonBlank?, nonBlank?, trim_eq_trim_iff.2 h]

/-- Nor does it matter how a text is left out. -/
theorem bind_nonBlank?_congr (h : SameOption Eq a b) : a.bind nonBlank? = b.bind nonBlank? := by
  have hnone {a : Option String} (ha : LeftOut a) : a.bind nonBlank? = none := by
    cases a with
    | none => rfl
    | some s => rw [Option.bind_some, nonBlank?_eq_none_iff.2 (ha s rfl)]
  cases h with
  | given h => rw [Option.bind_some, Option.bind_some, nonBlank?_congr h]
  | leftOut ha hb => rw [hnone ha, hnone hb]

/-! ### Letter case -/

/-- The characters from the capitals to the small letters are no blanks. -/
theorem isBlank_of_letter {c : Char} (hlo : 65 ≤ c.toNat) (hhi : c.toNat ≤ 122) :
    isBlank c = false := by
  simp only [isBlank, Bool.or_eq_false_iff, Bool.and_eq_false_iff, decide_eq_false_iff_not,
    beq_eq_false_iff_ne]
  omega

theorem toNat_toLower {c : Char} (hlo : 65 ≤ c.toNat) (hhi : c.toNat ≤ 90) :
    c.toLower.toNat = c.toNat + 32 := by
  have hcapital : c.val ≥ 'A'.val ∧ c.val ≤ 'Z'.val := ⟨hlo, hhi⟩
  have hlower : c.toLower.toNat = (c.val + 32).toNat := congrArg Char.toNat (dif_pos hcapital)
  have hle : c.val.toNat ≤ 90 := hhi
  rw [hlower, UInt32.toNat_add]
  exact Nat.mod_eq_of_lt (by simp only [UInt32.reduceToNat]; omega)

theorem isBlank_toLower (c : Char) : isBlank c.toLower = isBlank c := by
  by_cases hcapital : 65 ≤ c.toNat ∧ c.toNat ≤ 90
  · have hsmall : c.toLower.toNat = c.toNat + 32 := toNat_toLower hcapital.1 hcapital.2
    rw [isBlank_of_letter (by omega) (by omega), isBlank_of_letter (by omega) (by omega)]
  · have hsame : c.toLower = c := dif_neg fun h => hcapital ⟨h.1, h.2⟩
    rw [hsame]

/-- Trimming a text and making its capitals small can be done in either order. -/
theorem trimChars_map_toLower (cs : List Char) :
    trimChars (cs.map Char.toLower) = (trimChars cs).map Char.toLower := by
  have hblank : isBlank ∘ Char.toLower = isBlank := funext isBlank_toLower
  rw [trimChars, List.dropWhile_map, hblank, ← List.map_reverse, List.dropWhile_map, hblank,
    ← List.map_reverse, trimChars]

/-- **What trimming and making its capitals small makes equal** are the texts that differ only by
blanks around them and by the case of their letters. -/
theorem asciiLower_trim_eq_iff :
    asciiLower (trim s) = asciiLower (trim t) ↔ SameBut (fun c d => sameLetter c d = true) s t := by
  have hcore (core core' : List Char) :
      List.Forall₂ (fun c d => sameLetter c d = true) core core' ↔
        core.map Char.toLower = core'.map Char.toLower := by
    simp [sameLetter, ← List.forall₂_eq_eq_eq, List.forall₂_map_left_iff,
      List.forall₂_map_right_iff]
  have hchars : asciiLower (trim s) = asciiLower (trim t) ↔
      (trimChars s.toList).map Char.toLower = (trimChars t.toList).map Char.toLower := by
    simp [asciiLower, toList_trim, ← String.toList_inj]
  rw [hchars, SameBut]
  constructor
  · exact fun h => ⟨_, _, padded_trimChars s.toList, padded_trimChars t.toList, (hcore _ _).2 h⟩
  · rintro ⟨core, core', hs, ht, hsame⟩
    rw [trimChars_of_padded hs, trimChars_of_padded ht, ← trimChars_map_toLower,
      ← trimChars_map_toLower, (hcore _ _).1 hsame]

end Text

open Text

/-! ### Normal form -/

namespace JobSpec

/-- **The texts of a specification.** -/
def texts (spec : JobSpec) : List String :=
  spec.name :: spec.task :: (spec.cronExpression.toList ++ spec.overlapPolicy.toList ++
    spec.model.toList ++ spec.notifyTarget.toList)

/-- **A specification in normal form, with all its texts.** -/
structure Tidy (spec : JobSpec) : Prop extends spec.Normal where
  /-- Texts are trimmed, and there is something in them. -/
  texts : ∀ text ∈ spec.texts, Trimmed text ∧ text ≠ ""

variable {spec spec' v : JobSpec} {seconds seconds' : Option Int}

/-- The model and the target are those of the specification, unless they are blank. -/
theorem settings_of_validate (h : spec.validate = .ok v) :
    v.model = spec.model.bind nonBlank? ∧ v.notifyTarget = spec.notifyTarget.bind nonBlank? := by
  simp only [validate, bind, Except.bind, pure, Except.pure] at h
  repeat' split at h
  all_goals cases h
  exact ⟨rfl, rfl⟩

/-- A text that was not dropped is trimmed. -/
theorem trimmed_of_mem_bind {given : Option String} {text : String}
    (h : text ∈ (given.bind nonBlank?).toList) : Trimmed text ∧ text ≠ "" := by
  obtain ⟨s, -, hs⟩ := Option.bind_eq_some_iff.1 (Option.mem_toList.1 h)
  exact ⟨trim_eq_self_iff.1 (trim_eq_of_nonBlank? hs), ne_empty_of_nonBlank? hs⟩

/-- **What passed the check is in normal form.** -/
theorem tidy_of_validate (h : spec.validate = .ok v) : v.Tidy where
  toNormal := (validated_of_validate h).normal
  texts text htext := by
    have hv := validated_of_validate h
    obtain ⟨hmodel, htarget⟩ := settings_of_validate h
    simp only [JobSpec.texts, List.mem_cons, List.mem_append, hv.cronExpression, hmodel, htarget,
      hv.policy, Option.toList_some, List.not_mem_nil, or_false] at htext
    rcases htext with rfl | rfl | ((hcron | rfl) | hmodel) | htarget
    · exact ⟨trim_eq_self_iff.1 hv.normal.name, hv.normal.name_ne⟩
    · exact ⟨trim_eq_self_iff.1 hv.normal.task, hv.normal.task_ne⟩
    · exact trimmed_of_mem_bind hcron
    · exact ⟨trim_eq_self_iff.1 (by decide), by decide⟩
    · exact trimmed_of_mem_bind hmodel
    · exact trimmed_of_mem_bind htarget

theorem checkSchedule_of_schedulable {cronExpression : Option String}
    (h : Schedulable cronExpression seconds) : checkSchedule cronExpression seconds = .ok () := by
  cases h with
  | cron _ hparse => simp only [checkSchedule, hparse]
  | interval _ hle => simp only [checkSchedule, if_neg (Int.not_lt.2 hle)]

theorem pos_of_schedulable {cronExpression : Option String}
    (h : Schedulable cronExpression seconds) :
    ∀ s, seconds = some s → 0 < s := by
  cases h with
  | cron => simp
  | interval hpos _ => simpa using hpos

theorem positive?_eq_self (h : ∀ s, seconds = some s → 0 < s) : positive? seconds = seconds := by
  cases seconds with
  | none => rfl
  | some s => simp [positive?, h s rfl]

/-- **What is in normal form passes the check unchanged.** -/
theorem Tidy.validate_eq (h : v.Tidy) : v.validate = .ok v := by
  have htext {text : String} (hmem : text ∈ v.texts) : nonBlank? text = some text :=
    nonBlank?_eq_self_iff.2 (h.texts text hmem)
  have hoption {given : Option String} (hgiven : given.toList ⊆ v.texts) :
      given.bind nonBlank? = given := by
    cases given with
    | none => rfl
    | some text => rw [Option.bind_some, htext (hgiven (by simp))]
  have hname : nonBlank? v.name = some v.name := htext (by simp [JobSpec.texts])
  have htask : nonBlank? v.task = some v.task := htext (by simp [JobSpec.texts])
  have hcron : v.cronExpression.bind nonBlank? = v.cronExpression :=
    hoption fun text ht => by simp [JobSpec.texts, Option.mem_toList.1 ht]
  have hmodel : v.model.bind nonBlank? = v.model :=
    hoption fun text ht => by simp [JobSpec.texts, Option.mem_toList.1 ht]
  have htarget : v.notifyTarget.bind nonBlank? = v.notifyTarget :=
    hoption fun text ht => by simp [JobSpec.texts, Option.mem_toList.1 ht]
  have hinterval := positive?_eq_self (pos_of_schedulable h.schedule)
  have htimeout := positive?_eq_self fun s hs => (h.timeout s hs).1
  have hshort : v.timeoutSeconds.any (fun s : Int => Job.maxTimeout < s) = false := by
    cases hs : v.timeoutSeconds with
    | none => rfl
    | some s => simpa using (h.timeout s hs).2
  have hpolicy : OverlapPolicy.parse (v.overlapPolicy.getD "") = .ok .forbid := by
    rw [h.policy]
    decide
  simp only [validate, hname, htask, hcron, hmodel, htarget, hinterval, htimeout, hshort, hpolicy,
    checkSchedule_of_schedulable h.schedule, Except.mapError, bind, Except.bind, pure, Except.pure,
    ← h.policy]
  rfl

/-- **What passes the check unchanged** is what is in normal form. -/
theorem validate_eq_self_iff : v.validate = .ok v ↔ v.Tidy :=
  ⟨tidy_of_validate, Tidy.validate_eq⟩

/-! ### Specifications that mean the same -/

/-- Two numbers are the same, or neither is given and positive. -/
def SameNumber (seconds seconds' : Option Int) : Prop :=
  seconds = seconds' ∨ (∀ s ∈ seconds, s ≤ 0) ∧ ∀ s ∈ seconds', s ≤ 0

/-- **Two specifications mean the same**: they differ only in blanks around the texts, in the case
of the letters of the policy, in how texts are left out, and in which number that is not positive
stands for none. -/
structure Alike (spec spec' : JobSpec) : Prop where
  /-- The names are the same but for blanks around them. -/
  name : SameBut Eq spec.name spec'.name
  /-- The tasks are the same but for blanks around them. -/
  task : SameBut Eq spec.task spec'.task
  /-- Both are enabled, or neither is. -/
  enabled : spec.enabled = spec'.enabled
  /-- The expressions are the same but for blanks around them, or both are left out. -/
  cronExpression : SameOption Eq spec.cronExpression spec'.cronExpression
  /-- The intervals are the same, or both are left out. -/
  intervalSeconds : SameNumber spec.intervalSeconds spec'.intervalSeconds
  /-- Both fire only once, or neither does. -/
  runOnce : spec.runOnce = spec'.runOnce
  /-- The policies are the same but for blanks around them and letter case, or both are left out. -/
  overlapPolicy : SameOption (fun c d => sameLetter c d = true) spec.overlapPolicy
    spec'.overlapPolicy
  /-- The deadlines are the same, or both are left out. -/
  timeoutSeconds : SameNumber spec.timeoutSeconds spec'.timeoutSeconds
  /-- The models are the same but for blanks around them, or both are left out. -/
  model : SameOption Eq spec.model spec'.model
  /-- The targets are the same but for blanks around them, or both are left out. -/
  notifyTarget : SameOption Eq spec.notifyTarget spec'.notifyTarget

/-- **Two checks come to the same**: their answers are equal, except that each complaint about a
policy quotes the policy as it was given. -/
inductive SameOutcome : Except SpecError JobSpec → Except SpecError JobSpec → Prop where
  /-- The answers are equal. -/
  | same (answer : Except SpecError JobSpec) : SameOutcome answer answer
  /-- Both policies are refused. -/
  | policy (text text' : String) :
    SameOutcome (.error (.definition (.unsupportedPolicy text)))
      (.error (.definition (.unsupportedPolicy text')))

theorem positive?_eq_none (h : ∀ s ∈ seconds, s ≤ 0) : positive? seconds = none :=
  Option.filter_eq_none_iff.2 fun s hs => by simpa using h s hs

theorem positive?_congr (h : SameNumber seconds seconds') :
    positive? seconds = positive? seconds' := by
  rcases h with rfl | ⟨h, h'⟩
  · rfl
  · rw [positive?_eq_none h, positive?_eq_none h']

/-- Policies that are the same but for blanks and letter case are both known, or both refused. -/
theorem parse_policy_congr {a b : Option String}
    (h : SameOption (fun c d => sameLetter c d = true) a b) :
    OverlapPolicy.parse (a.getD "") = OverlapPolicy.parse (b.getD "") ∨
      OverlapPolicy.parse (a.getD "") = .error (.unsupportedPolicy (a.getD "")) ∧
        OverlapPolicy.parse (b.getD "") = .error (.unsupportedPolicy (b.getD "")) := by
  have hword : asciiLower (trim (a.getD "")) = asciiLower (trim (b.getD "")) := by
    have hblank {a : Option String} (ha : LeftOut a) : trim (a.getD "") = "" := by
      cases a with
      | none => decide
      | some s =>
        have hnone := nonBlank?_eq_none_iff.2 (ha s rfl)
        simpa [nonBlank?] using hnone
    cases h with
    | given h => exact asciiLower_trim_eq_iff.2 h
    | leftOut ha hb => rw [hblank ha, hblank hb]
  simp only [OverlapPolicy.parse, hword]
  split <;> simp

/-- **Specifications that mean the same come to the same.** -/
theorem Alike.sameOutcome (h : spec.Alike spec') : SameOutcome spec.validate spec'.validate := by
  have hpolicy := parse_policy_congr h.overlapPolicy
  simp only [validate, nonBlank?_congr h.name, nonBlank?_congr h.task, h.enabled, h.runOnce,
    bind_nonBlank?_congr h.cronExpression, bind_nonBlank?_congr h.model,
    bind_nonBlank?_congr h.notifyTarget, positive?_congr h.intervalSeconds,
    positive?_congr h.timeoutSeconds]
  rcases hpolicy with hsame | ⟨hleft, hright⟩
  · rw [hsame]
    exact .same _
  · rw [hleft, hright]
    simp only [Except.mapError, bind, Except.bind]
    -- The texts of the policies show only when everything before them has passed.
    repeat' split
    all_goals constructor

/-- **Checking normalises once and for all.**  What passes the check comes out in normal form and
passes it again unchanged; what is in normal form, and nothing else, passes it unchanged; and
specifications that mean the same come to the same. -/
theorem validate_normalizes :
    (∀ spec v : JobSpec, spec.validate = .ok v → v.validate = .ok v ∧ v.Tidy) ∧
      (∀ v : JobSpec, v.validate = .ok v ↔ v.Tidy) ∧
      ∀ spec spec' : JobSpec, spec.Alike spec' → SameOutcome spec.validate spec'.validate := by
  refine ⟨fun spec v h => ?_, fun v => validate_eq_self_iff, fun spec spec' h => h.sameOutcome⟩
  have htidy : v.Tidy := tidy_of_validate h
  exact ⟨htidy.validate_eq, htidy⟩

/-- A specification written carelessly. -/
def careless : JobSpec :=
  { name := " nightly", task := "tidy up\n", enabled := true, cronExpression := some "  "
    intervalSeconds := some 60, overlapPolicy := some " Forbid", timeoutSeconds := some (-5)
    model := some "" }

/-- The same specification, written carefully. -/
def careful : JobSpec :=
  { name := "nightly", task := "tidy up", enabled := true, intervalSeconds := some 60
    overlapPolicy := some "forbid" }

/-- The two specifications mean the same, and both come to the careful one. -/
theorem validate_normalizes_careless :
    careless.validate = .ok careful ∧ careless.Alike careful ∧ careful.validate = .ok careful ∧
      careful.Tidy ∧ SameOutcome careless.validate careful.validate := by
  have hchecked : careless.validate = .ok careful := by decide +kernel
  have halike : careless.Alike careful := {
    name := trim_eq_trim_iff.1 (by decide)
    task := trim_eq_trim_iff.1 (by decide)
    enabled := rfl
    cronExpression := .leftOut (by rintro _ ⟨⟩; simp [AllBlank, isBlank]) (by rintro _ ⟨⟩)
    intervalSeconds := .inl rfl
    runOnce := rfl
    overlapPolicy := .given (asciiLower_trim_eq_iff.1 (by decide))
    timeoutSeconds := .inr ⟨by decide, by decide⟩
    model := .leftOut (by rintro _ ⟨⟩; simp [AllBlank, isBlank]) (by rintro _ ⟨⟩)
    notifyTarget := .leftOut (by rintro _ ⟨⟩) (by rintro _ ⟨⟩) }
  obtain ⟨hagain, htidy⟩ := validate_normalizes.1 careless careful hchecked
  exact ⟨hchecked, halike, hagain, htidy, validate_normalizes.2.2 careless careful halike⟩

end JobSpec

end Timetable
