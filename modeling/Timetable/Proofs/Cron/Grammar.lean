/-
**The grammar of cron expressions.**

An expression is a text, and what it means is settled by its characters: the words between its
blanks, the parts between the commas of a word, and the numbers that the parts write.  This module
states which texts are expressions, and which values each of their fields admits, without the
reader: in terms of splitting, of decimal digits and of divisibility.  The reader collects values in
a mask and stops at the first star, so the proof follows it part by part, with the mask that was
collected so far.

Main definitions:

* `Text.pieces` — the pieces between separators that are not empty;
* `Text.Writes` — a number in decimal digits;
* `Cron.WritesStep` — a step;
* `Cron.Field.Lists`, `Cron.Field.Means` — a part that a field can list, and its values;
* `Cron.Field.Accepts`, `Cron.Field.Admits` — **what a field may be, and what it then means**;
* `Cron.WrittenAs` — the words of an expression.

Main results:

* `Text.unsigned?_eq_some_iff` — which texts are read as which numbers;
* `Cron.Field.readPart_eq_values_iff` — which parts are read as which values;
* `Cron.Field.exists_read_iff`, `Cron.Field.contains_of_read` — which words are read, and as what;
* `Cron.Expression.parse_grammar` — **expressions are the texts of the grammar, with its meaning**.
-/

import Mathlib.Data.Nat.Digits.Defs
import Mathlib.Tactic.Ring
import Timetable.Proofs.Cron.Reading

set_option autoImplicit false
set_option relaxedAutoImplicit false

namespace Timetable

/-! ### Splitting and numbers -/

namespace Text

/-- **The pieces between separators** that are not empty. -/
def pieces (p : Char → Bool) (cs : List Char) : List (List Char) :=
  (cs.splitOnP p).filter fun w => !w.isEmpty

theorem splitWhere_eq_splitOnP (p : Char → Bool) (cs : List Char) :
    splitWhere p cs = cs.splitOnP p := by
  induction cs with
  | nil => rfl
  | cons c cs ih =>
    rw [List.splitOnP_cons_eq_if_modifyHead, splitWhere, ih]
    split
    · rfl
    · cases h : cs.splitOnP p with
      | nil => exact absurd h (List.splitOnP_ne_nil p cs)
      | cons w ws => rfl

theorem wordChars_eq (cs : List Char) : wordChars cs = pieces isBlank cs := by
  rw [wordChars, splitWhere_eq_splitOnP, pieces]

/-- The words of a text are its pieces between blanks. -/
theorem words_eq_iff (s : String) (ws : List String) :
    words s = ws ↔ pieces isBlank s.toList = ws.map String.toList := by
  rw [words, wordChars_eq]
  constructor
  · rintro rfl
    simp [Function.comp_def]
  · intro h
    simp [h, Function.comp_def]

/-- A piece consists of characters of the text that are no separators. -/
theorem of_mem_splitWhere {p : Char → Bool} {cs w : List Char} (hw : w ∈ splitWhere p cs) {c : Char}
    (hc : c ∈ w) : c ∈ cs ∧ p c = false := by
  have hflat : c ∈ (splitWhere p cs).flatten := List.mem_flatten_of_mem hw hc
  rw [flatten_splitWhere, List.mem_filter] at hflat
  exact ⟨hflat.1, by simpa using hflat.2⟩

/-- A word of a text has no blanks. -/
theorem not_blank_of_mem_words {s w : String} (hw : w ∈ words s) {c : Char} (hc : c ∈ w.toList) :
    isBlank c = false := by
  obtain ⟨cs, hcs, rfl⟩ := List.mem_map.1 hw
  rw [String.toList_ofList] at hc
  exact (of_mem_splitWhere (List.mem_filter.1 hcs).1 hc).2

/-- Where there are no blanks, there is nothing to trim. -/
theorem trimChars_eq_self {cs : List Char} (h : ∀ c ∈ cs, isBlank c = false) :
    trimChars cs = cs := by
  have hkeep (ds : List Char) (hds : ∀ c ∈ ds, isBlank c = false) : ds.dropWhile isBlank = ds := by
    cases ds with
    | nil => rfl
    | cons d ds => rw [List.dropWhile_cons_of_neg (by simp [hds d List.mem_cons_self])]
  rw [trimChars, hkeep cs h, hkeep cs.reverse fun c hc => h c (List.mem_reverse.1 hc),
    List.reverse_reverse]

/-- The value of a digit. -/
def digitValue (c : Char) : Nat := c.toNat - '0'.toNat

/-- **A number in decimal digits**: one digit or more, the most significant one first, after an
optional `+`. -/
def Writes (cs : List Char) (n : Nat) : Prop :=
  ∃ ds : List Char, (cs = ds ∨ cs = '+' :: ds) ∧ ds ≠ [] ∧ (∀ d ∈ ds, d.isDigit = true) ∧
    Nat.ofDigits 10 (ds.map digitValue).reverse = n

/-- Digits are read from the left: each one multiplies what was read so far by ten. -/
theorem digitsFrom?_eq_some_iff {acc n : Nat} {ds : List Char} :
    digitsFrom? acc ds = some n ↔ (∀ d ∈ ds, d.isDigit = true) ∧
      acc * 10 ^ ds.length + Nat.ofDigits 10 (ds.map digitValue).reverse = n := by
  induction ds generalizing acc with
  | nil => simp [digitsFrom?]
  | cons d ds ih =>
    have hvalue : (acc * 10 + (d.toNat - 48)) * 10 ^ ds.length =
        acc * 10 ^ (ds.length + 1) + 10 ^ ds.length * digitValue d := by
      simp only [digitValue, Char.reduceToNat]
      ring
    simp only [digitsFrom?, List.forall_mem_cons, List.length_cons, List.map_cons,
      List.reverse_cons, Nat.ofDigits_append, Nat.ofDigits_singleton, List.length_reverse,
      List.length_map]
    split
    · rename_i hd
      rw [ih, hvalue]
      simp only [hd, true_and]
      refine and_congr_right fun _ => ?_
      rw [Nat.add_assoc, Nat.add_comm (10 ^ ds.length * digitValue d)]
    · rename_i hd
      simp [hd]

theorem digits?_eq_some_iff {n : Nat} {ds : List Char} :
    digits? ds = some n ↔ ds ≠ [] ∧ (∀ d ∈ ds, d.isDigit = true) ∧
      Nat.ofDigits 10 (ds.map digitValue).reverse = n := by
  cases ds with
  | nil => simp [digits?]
  | cons d ds => simp [digits?, digitsFrom?_eq_some_iff]

/-- **Which texts are read as which numbers.** -/
theorem unsigned?_eq_some_iff {max n : Nat} {cs : List Char} :
    unsigned? max cs = some n ↔ Writes cs n ∧ n ≤ max := by
  rw [unsigned?, Option.filter_eq_some_iff, decide_eq_true_eq, digits?_eq_some_iff]
  refine and_congr_left fun _ => ⟨fun h => ⟨dropPlus cs, ?_, h⟩, ?_⟩
  · unfold dropPlus
    split
    · exact Or.inr rfl
    · exact Or.inl rfl
  · rintro ⟨ds, rfl | rfl, hne, hdigits, hvalue⟩
    · -- a sign is no digit
      have hsame : dropPlus cs = cs := by
        unfold dropPlus
        split
        · exact absurd (hdigits '+' List.mem_cons_self) (by decide)
        · rfl
      rw [hsame]
      exact ⟨hne, hdigits, hvalue⟩
    · exact ⟨hne, hdigits, hvalue⟩

/-- A text writes one number. -/
theorem Writes.unique {cs : List Char} {m n : Nat} (hm : Writes cs m) (hn : Writes cs n) :
    m = n := by
  have hm := unsigned?_eq_some_iff.2 ⟨hm, Nat.le_max_left m n⟩
  have hn := unsigned?_eq_some_iff.2 ⟨hn, Nat.le_max_right m n⟩
  exact Option.some.inj (hm.symm.trans hn)

/-- A star is no number. -/
theorem not_writes_star (cs : List Char) (n : Nat) : ¬ Writes ('*' :: cs) n := by
  rintro ⟨ds, rfl | h, -, hdigits, -⟩
  · exact absurd (hdigits '*' List.mem_cons_self) (by decide)
  · cases h

end Text

namespace Cron

open Text

/-! ### Parts -/

/-- **A step**: a star, a slash and a positive number of 32 bits. -/
def WritesStep (part : List Char) (n : Nat) : Prop :=
  ∃ ds, part = '*' :: '/' :: ds ∧ Writes ds n ∧ 1 ≤ n ∧ n ≤ uint32Max

theorem WritesStep.unique {part : List Char} {m n : Nat} (hm : WritesStep part m)
    (hn : WritesStep part n) : m = n := by
  obtain ⟨ds, rfl, hm, -⟩ := hm
  obtain ⟨ds', hds, hn, -⟩ := hn
  cases hds
  exact hm.unique hn

namespace Field

variable {f : Field} {part : List Char} {ps : List (List Char)} {word : String} {mask : Nat}
  {vs : Values}

/-- **A part that a field can list**: a value of its range, or a step. -/
def Lists (f : Field) (part : List Char) : Prop :=
  (∃ v, Writes part v ∧ f.InRange v) ∨ ∃ n, WritesStep part n

/-- **Which parts are read as which values.** -/
theorem readPart_eq_values_iff {ws : List Nat} :
    f.readPart part = .ok (.values ws) ↔
      (∃ v, Writes part v ∧ f.InRange v ∧ ws = [v]) ∨
        ∃ n, WritesStep part n ∧ ws = f.stepValues n := by
  unfold readPart
  split
  · refine iff_of_false (by simp) ?_
    rintro (⟨v, hv, -⟩ | ⟨n, ⟨ds, hds, -⟩, -⟩)
    · exact not_writes_star [] v hv
    · cases hds
  · rename_i step
    have hno (v : Nat) : ¬ Writes ('*' :: '/' :: step) v := not_writes_star _ v
    have hstep (n : Nat) : WritesStep ('*' :: '/' :: step) n ↔
        unsigned? uint32Max step = some n ∧ 1 ≤ n := by
      rw [unsigned?_eq_some_iff]
      constructor
      · rintro ⟨ds, hds, hn, hpos, hle⟩
        cases hds
        exact ⟨⟨hn, hle⟩, hpos⟩
      · rintro ⟨⟨hn, hle⟩, hpos⟩
        exact ⟨step, rfl, hn, hpos, hle⟩
    simp only [hno, hstep, false_and, exists_false, false_or]
    split
    · rename_i hnone
      simp [hnone]
    · rename_i hzero
      simp [hzero]
    · rename_i n hne hn
      have hpos : 1 ≤ n := Nat.one_le_iff_ne_zero.2 hne
      simp only [hn, Except.ok.injEq, Part.values.injEq, Option.some.injEq]
      constructor
      · rintro rfl
        exact ⟨n, ⟨rfl, hpos⟩, rfl⟩
      · rintro ⟨m, ⟨rfl, -⟩, rfl⟩
        rfl
  · rename_i hstar hslash
    have hno (n : Nat) : ¬ WritesStep part n := fun ⟨ds, hds, _⟩ => hslash ds hds
    have hvalue (v : Nat) : Writes part v ∧ f.InRange v ↔
        unsigned? uint32Max part = some v ∧ f.InRange v := by
      rw [unsigned?_eq_some_iff, and_assoc]
      refine and_congr_right fun _ => (and_iff_right_of_imp fun h => ?_).symm
      have hmax := f.max_lt
      exact Nat.le_trans h.2 (by simp only [uint32Max]; omega)
    simp only [hno, ← and_assoc, hvalue, false_and, exists_false, or_false]
    cases hn : unsigned? uint32Max part with
    | none => simp
    | some n =>
      by_cases hrange : f.min ≤ n ∧ n ≤ f.max
      · simp only [hrange, and_self, if_true, Except.ok.injEq, Part.values.injEq, Option.some.injEq]
        constructor
        · rintro rfl
          exact ⟨n, ⟨rfl, hrange⟩, rfl⟩
        · rintro ⟨v, ⟨rfl, -⟩, rfl⟩
          rfl
      · simp only [hrange, if_false]
        refine iff_of_false (by simp) ?_
        rintro ⟨v, ⟨hv, hin⟩, -⟩
        cases hv
        exact hrange hin

/-- **What a part means**: the value it writes, or the values whose distance from the least one is a
multiple of its step. -/
def Means (f : Field) (part : List Char) (v : Nat) : Prop :=
  Writes part v ∨ ∃ n, WritesStep part n ∧ n ∣ v - f.min

theorem readPart_eq_star_iff : f.readPart part = .ok .star ↔ part = ['*'] := by
  unfold readPart
  split
  · simp
  · refine iff_of_false ?_ (by simp)
    split <;> simp
  · rename_i hstar _
    refine iff_of_false ?_ hstar
    split
    · simp
    · split <;> simp

theorem lists_iff : f.Lists part ↔ ∃ ws, f.readPart part = .ok (.values ws) := by
  simp only [readPart_eq_values_iff, Lists]
  constructor
  · rintro (⟨v, hv, hin⟩ | ⟨n, hn⟩)
    · exact ⟨[v], Or.inl ⟨v, hv, hin, rfl⟩⟩
    · exact ⟨f.stepValues n, Or.inr ⟨n, hn, rfl⟩⟩
  · rintro ⟨ws, ⟨v, hv, hin, -⟩ | ⟨n, hn, -⟩⟩
    · exact Or.inl ⟨v, hv, hin⟩
    · exact Or.inr ⟨n, hn⟩

/-- A part that was read lists what it means. -/
theorem mem_of_readPart {ws : List Nat} {v : Nat} (h : f.readPart part = .ok (.values ws))
    (hv : f.InRange v) : v ∈ ws ↔ f.Means part v := by
  rcases readPart_eq_values_iff.1 h with ⟨w, hw, hin, rfl⟩ | ⟨n, hn, rfl⟩
  · have hno (n : Nat) : ¬ WritesStep part n := by
      rintro ⟨ds, rfl, -⟩
      exact not_writes_star _ w hw
    simp only [List.mem_singleton, Means, hno, false_and, exists_false, or_false]
    exact ⟨fun heq => heq ▸ hw, fun hv => hv.unique hw⟩
  · have hno : ¬ Writes part v := by
      obtain ⟨ds, rfl, -⟩ := hn
      exact not_writes_star _ v
    simp only [mem_stepValues, hv, true_and, Means, hno, false_or, ← Nat.dvd_iff_mod_eq_zero]
    exact ⟨fun hdvd => ⟨n, hn, hdvd⟩, fun ⟨m, hm, hdvd⟩ => hn.unique hm ▸ hdvd⟩

/-- A part that was read lists some value. -/
theorem ne_nil_of_readPart {ws : List Nat} (h : f.readPart part = .ok (.values ws)) : ws ≠ [] := by
  rcases readPart_eq_values_iff.1 h with ⟨w, -, -, rfl⟩ | ⟨n, -, rfl⟩
  · exact List.cons_ne_nil w []
  · exact List.ne_nil_of_mem (mem_stepValues.2 ⟨⟨Nat.le_refl f.min, f.min_le_max⟩, by simp⟩)

/-! ### Fields -/

/-- The reading goes on to the first star, and it needs some part; `mask` holds what was
collected. -/
theorem exists_readParts_iff : (∃ vs, f.readParts word mask ps = .ok vs) ↔
    (mask ≠ 0 ∨ ps ≠ []) ∧ ∀ part ∈ ps.takeWhile (· ≠ ['*']), f.Lists part := by
  induction ps generalizing mask with
  | nil => by_cases hmask : mask = 0 <;> simp [readParts, hmask]
  | cons part rest ih =>
    simp only [readParts, ne_eq, reduceCtorEq, not_false_eq_true, or_true, true_and]
    split
    · rename_i e he
      -- a part that is refused is no star, and no list has it
      have hstar : part ≠ ['*'] := by simp [← readPart_eq_star_iff (f := f), he]
      have hno : ¬ f.Lists part := by simp [lists_iff, he]
      simp [hstar, hno]
    · rename_i he
      simp [readPart_eq_star_iff.1 he]
    · rename_i ws he
      have hstar : part ≠ ['*'] := by simp [← readPart_eq_star_iff (f := f), he]
      have hmask : mask ||| maskOf ws ≠ 0 := by
        obtain ⟨v, hv⟩ := List.exists_mem_of_ne_nil ws (ne_nil_of_readPart he)
        intro hzero
        have hbit := (testBit_maskOf ws v).2 hv
        simp [(Nat.or_eq_zero_iff.1 hzero).2] at hbit
      rw [ih]
      simp [hmask, hstar, lists_iff.2 ⟨ws, he⟩]

/-- What was read contains what was collected and what the parts mean. -/
theorem contains_of_readParts {v : Nat} (h : f.readParts word mask ps = .ok vs)
    (hv : f.InRange v) : vs.contains v = true ↔
      mask.testBit v = true ∨ ['*'] ∈ ps ∨ ∃ part ∈ ps, f.Means part v := by
  induction ps generalizing mask with
  | nil =>
    simp only [readParts] at h
    split at h
    · cases h
    · cases h
      simp
  | cons part rest ih =>
    simp only [readParts] at h
    split at h
    · cases h
    · rename_i he
      cases h
      simp [readPart_eq_star_iff.1 he]
    · rename_i ws he
      have hstar : ¬ ['*'] = part := by simp [eq_comm, ← readPart_eq_star_iff (f := f), he]
      rw [ih h, Nat.testBit_or, Bool.or_eq_true, testBit_maskOf, mem_of_readPart he hv]
      simp only [List.mem_cons, hstar, false_or, exists_eq_or_imp]
      tauto

/-- The parts of a word, between its commas. -/
def parts (word : String) : List (List Char) := pieces (· == ',') word.toList

/-- **What the word of a field may be**: a star, or some parts, each of which the field can list, up
to the first star among them. -/
def Accepts (f : Field) (word : String) : Prop :=
  word = "*" ∨ parts word ≠ [] ∧ ∀ part ∈ (parts word).takeWhile (· ≠ ['*']), f.Lists part

/-- **What the word of a field then means**: every value, if a part is a star, and else what its
parts mean. -/
def Admits (f : Field) (word : String) (v : Nat) : Prop :=
  ['*'] ∈ parts word ∨ ∃ part ∈ parts word, f.Means part v

/-- Words have no blanks, so nothing is trimmed from the parts of a word. -/
theorem partsOf_eq_parts (h : ∀ c ∈ word.toList, isBlank c = false) :
    partsOf word.toList = parts word := by
  rw [partsOf, parts, pieces, ← splitWhere_eq_splitOnP]
  congr 1
  refine (List.map_congr_left fun w hw => ?_).trans (List.map_id _)
  exact trimChars_eq_self fun c hc => h c (of_mem_splitWhere hw hc).1

theorem parts_star : parts "*" = [['*']] := by
  rw [parts, pieces, ← splitWhere_eq_splitOnP]
  decide

/-- **A word is read as a field exactly when the field may be that word.** -/
theorem exists_read_iff (h : ∀ c ∈ word.toList, isBlank c = false) :
    (∃ vs, f.read word = .ok vs) ↔ f.Accepts word := by
  unfold read Accepts
  by_cases hstar : word = "*"
  · simp [hstar]
  · simp [hstar, partsOf_eq_parts h, exists_readParts_iff]

/-- **A field that was read contains what its word means.** -/
theorem contains_of_read {v : Nat} (h : ∀ c ∈ word.toList, isBlank c = false)
    (hread : f.read word = .ok vs) (hv : f.InRange v) : vs.contains v = true ↔ f.Admits word v := by
  unfold read at hread
  split at hread
  · rename_i hstar
    cases hread
    simp [Admits, hstar, parts_star]
  · rw [partsOf_eq_parts h] at hread
    simp [contains_of_readParts hread hv, Admits]

end Field

/-! ### Expressions -/

/-- The fields, in the order they are written. -/
def Field.inOrder : List Field := [.minute, .hour, .dayOfMonth, .month, .dayOfWeek]

/-- **The words of an expression**: one for each field, between blanks, and nothing else. -/
def WrittenAs (text : String) (word : Field → String) : Prop :=
  pieces isBlank text.toList = Field.inOrder.map fun f => (word f).toList

variable {text : String} {word : Field → String}

theorem writtenAs_iff : WrittenAs text word ↔ words text = Field.inOrder.map word := by
  rw [words_eq_iff, WrittenAs, List.map_map]
  rfl

theorem exists_writtenAs_iff :
    (∃ word, WrittenAs text word) ↔ (pieces isBlank text.toList).length = 5 := by
  constructor
  · rintro ⟨word, h⟩
    rw [h, List.length_map]
    rfl
  · intro h
    obtain ⟨mi, ho, dm, mo, dw, hws⟩ : ∃ mi ho dm mo dw, words text = [mi, ho, dm, mo, dw] := by
      have hlength : (words text).length = 5 := by rw [words, List.length_map, wordChars_eq, h]
      match words text, hlength with
      | [mi, ho, dm, mo, dw], _ => exact ⟨mi, ho, dm, mo, dw, rfl⟩
    let word (f : Field) : String := Field.casesOn f mi ho dm mo dw
    exact ⟨word, writtenAs_iff.2 hws⟩

namespace WrittenAs

theorem unique {word' : Field → String} (h : WrittenAs text word) (h' : WrittenAs text word') :
    word = word' := by
  have heq := (writtenAs_iff.1 h).symm.trans (writtenAs_iff.1 h')
  simp only [Field.inOrder, List.map_cons, List.map_nil, List.cons.injEq, and_true] at heq
  funext f
  cases f <;> simp [heq]

theorem not_blank (h : WrittenAs text word) (f : Field) :
    ∀ c ∈ (word f).toList, isBlank c = false := by
  intro c hc
  have hmem : word f ∈ words text := by
    rw [writtenAs_iff.1 h]
    cases f <;> simp [Field.inOrder]
  exact not_blank_of_mem_words hmem hc

end WrittenAs

namespace Expression

/-- The values that a field of an expression admits. -/
def values (e : Expression) : Field → Values
  | .minute => e.minute
  | .hour => e.hour
  | .dayOfMonth => e.dayOfMonth
  | .month => e.month
  | .dayOfWeek => e.dayOfWeek

/-- **Reading five words**: each one is read as its field, or one of them is refused. -/
theorem parse_cases (h : WrittenAs text word) :
    (∃ e, parse text = .ok e ∧ (∀ f : Field, f.read (word f) = .ok (e.values f)) ∧
      e.dayOfMonthRestricted = (word .dayOfMonth != "*") ∧
      e.dayOfWeekRestricted = (word .dayOfWeek != "*")) ∨
    ∃ (f : Field) (why : FieldError),
      parse text = .error (.field f why) ∧ f.read (word f) = .error why := by
  have hwords := writtenAs_iff.1 h
  simp only [Field.inOrder, List.map_cons, List.map_nil] at hwords
  simp only [parse, hwords, readField, bind, Except.bind, pure, Except.pure]
  cases hmi : Field.minute.read (word .minute) with
  | error why => exact Or.inr ⟨_, why, rfl, hmi⟩
  | ok minute =>
  cases hho : Field.hour.read (word .hour) with
  | error why => exact Or.inr ⟨_, why, rfl, hho⟩
  | ok hour =>
  cases hdm : Field.dayOfMonth.read (word .dayOfMonth) with
  | error why => exact Or.inr ⟨_, why, rfl, hdm⟩
  | ok dayOfMonth =>
  cases hmo : Field.month.read (word .month) with
  | error why => exact Or.inr ⟨_, why, rfl, hmo⟩
  | ok month =>
  cases hdw : Field.dayOfWeek.read (word .dayOfWeek) with
  | error why => exact Or.inr ⟨_, why, rfl, hdw⟩
  | ok dayOfWeek =>
    refine Or.inl ⟨_, rfl, fun f => ?_, rfl, rfl⟩
    cases f <;> assumption

/-- A text with another number of words is refused with that number. -/
theorem parse_of_not_writtenAs (h : ¬ ∃ word, WrittenAs text word) :
    parse text = .error (.wordCount (pieces isBlank text.toList).length text) := by
  have hlength : (words text).length = (pieces isBlank text.toList).length := by
    rw [words, List.length_map, wordChars_eq]
  rw [exists_writtenAs_iff, ← hlength] at h
  unfold parse
  split
  · rename_i hws
    exact absurd (by rw [hws]; rfl) h
  · rw [hlength]

/-- **Expressions are the texts of the grammar, with its meaning.**  A text is read exactly when it
has five words and each is what its field may be; then each field contains, among the values of its
range, those that its word admits, and a day field is restricted unless its word is a star.  A text
that is not read has another number of words, or the word of some field is not what the field may
be. -/
theorem parse_grammar (text : String) :
    ((∃ e, parse text = .ok e) ↔ ∃ word, WrittenAs text word ∧ ∀ f : Field, f.Accepts (word f)) ∧
    (∀ e word, parse text = .ok e → WrittenAs text word →
      (∀ (f : Field) (v : Nat), f.InRange v →
        ((e.values f).contains v = true ↔ f.Admits (word f) v)) ∧
      (e.dayOfMonthRestricted = true ↔ word .dayOfMonth ≠ "*") ∧
      (e.dayOfWeekRestricted = true ↔ word .dayOfWeek ≠ "*")) ∧
    ∀ error, parse text = .error error →
      ((pieces isBlank text.toList).length ≠ 5 ∧
        error = .wordCount (pieces isBlank text.toList).length text) ∨
      ∃ word f why, WrittenAs text word ∧ ¬ f.Accepts (word f) ∧ error = .field f why := by
  by_cases hwritten : ∃ word, WrittenAs text word
  · obtain ⟨word, hword⟩ := hwritten
    have haccepts (f : Field) : (∃ vs, f.read (word f) = .ok vs) ↔ f.Accepts (word f) :=
      Field.exists_read_iff (hword.not_blank f)
    rcases parse_cases hword with ⟨e, he, hfields, hdm, hdw⟩ | ⟨f, why, he, hwhy⟩
    · have hall : ∀ f : Field, f.Accepts (word f) := fun f => (haccepts f).1 ⟨_, hfields f⟩
      refine ⟨iff_of_true ⟨e, he⟩ ⟨word, hword, hall⟩, ?_, ?_⟩
      · intro e' word' he' hword'
        cases he.symm.trans he'
        cases hword.unique hword'
        exact ⟨fun f v => Field.contains_of_read (hword.not_blank f) (hfields f), by simp [hdm],
          by simp [hdw]⟩
      · intro error herror
        simp [he] at herror
    · have hno (e : Expression) : parse text ≠ .ok e := by simp [he]
      have hrefused : ¬ f.Accepts (word f) := by
        rw [← haccepts f, hwhy]
        simp
      refine ⟨iff_of_false (fun ⟨e, h⟩ => hno e h) ?_, fun e _ h => absurd h (hno e), ?_⟩
      · rintro ⟨word', hword', hall⟩
        cases hword.unique hword'
        exact hrefused (hall f)
      · intro error herror
        cases he.symm.trans herror
        exact Or.inr ⟨word, f, why, hword, hrefused, rfl⟩
  · have he := parse_of_not_writtenAs hwritten
    have hno (e : Expression) : parse text ≠ .ok e := by simp [he]
    refine ⟨iff_of_false (fun ⟨e, h⟩ => hno e h) fun ⟨word, hword, _⟩ => hwritten ⟨word, hword⟩,
      fun e _ h => absurd h (hno e), fun error herror => ?_⟩
    cases he.symm.trans herror
    exact Or.inl ⟨mt exists_writtenAs_iff.2 hwritten, rfl⟩

end Expression

end Cron

end Timetable
