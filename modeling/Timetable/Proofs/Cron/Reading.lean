/-
**What a cron expression that was read admits.**

Reading a field collects values of its range in a mask, and a word that yields no value is refused.
An expression that was read therefore admits some minute of the hour and some hour of the day; this
is what keeps the search for a fire from running on to the end of time.

Main results:

* `Cron.testBit_maskOf` — the bits of a mask are the values it was made of;
* `Cron.Field.exists_contains_of_read` — **a field that was read admits a value of its range**;
* `Cron.Expression.of_parse` — an expression that was read consists of its five fields.
-/

import Mathlib.Tactic.Basic
import Timetable.Cron.Expression

set_option autoImplicit false
set_option relaxedAutoImplicit false

namespace Timetable.Cron

/-! ### Masks -/

theorem testBit_foldl_mask (vs : List Nat) (mask v : Nat) :
    (vs.foldl (fun mask v => mask ||| 1 <<< v) mask).testBit v = true ↔
      mask.testBit v = true ∨ v ∈ vs := by
  induction vs generalizing mask with
  | nil => simp
  | cons w vs ih =>
    rw [List.foldl_cons, ih, Nat.testBit_or, Nat.one_shiftLeft, Nat.testBit_two_pow]
    simp only [Bool.or_eq_true, decide_eq_true_eq, List.mem_cons, or_assoc, eq_comm (a := v)]

/-- The bits of a mask are the values it was made of. -/
theorem testBit_maskOf (vs : List Nat) (v : Nat) : (maskOf vs).testBit v = true ↔ v ∈ vs := by
  rw [maskOf, testBit_foldl_mask]
  simp

namespace Field

/-! ### Values of a field -/

/-- The value lies in the range of the field. -/
def InRange (f : Field) (v : Nat) : Prop := f.min ≤ v ∧ v ≤ f.max

theorem mem_stepValues {f : Field} {n v : Nat} :
    v ∈ f.stepValues n ↔ f.InRange v ∧ (v - f.min) % n = 0 := by
  have hf := f.min_le_max
  simp only [stepValues, InRange, List.mem_map, List.mem_filter, List.mem_range, beq_iff_eq]
  constructor
  · rintro ⟨k, ⟨hk, hmod⟩, rfl⟩
    rw [Nat.add_sub_cancel_left]
    exact ⟨by omega, hmod⟩
  · rintro ⟨⟨hlo, hhi⟩, hmod⟩
    exact ⟨v - f.min, ⟨by omega, hmod⟩, by omega⟩

/-- A part lists only values of the range. -/
theorem inRange_of_readPart {f : Field} {part : List Char} {vs : List Nat}
    (h : f.readPart part = .ok (.values vs)) : ∀ v ∈ vs, f.InRange v := by
  unfold readPart at h
  split at h
  · cases h
  · split at h
    · cases h
    · cases h
    · cases h
      exact fun v hv => (mem_stepValues.1 hv).1
  · split at h
    · cases h
    · split at h
      · rename_i hn
        cases h
        exact fun v hv => by rwa [List.mem_singleton.1 hv]
      · cases h

/-- The values collected so far stay in the range of the field, so a mask that is not empty in the
end admits one of them. -/
theorem exists_contains_of_readParts {f : Field} {word : String} {parts : List (List Char)}
    {mask : Nat} {vs : Values} (hmask : ∀ v, mask.testBit v = true → f.InRange v)
    (h : f.readParts word mask parts = .ok vs) : ∃ v, f.InRange v ∧ vs.contains v = true := by
  induction parts generalizing mask with
  | nil =>
    simp only [readParts] at h
    split at h
    · cases h
    · rename_i hne
      cases h
      obtain ⟨v, hv⟩ := Nat.exists_testBit_of_ne_zero hne
      exact ⟨v, hmask v hv, hv⟩
  | cons part rest ih =>
    simp only [readParts] at h
    split at h
    · cases h
    · cases h
      exact ⟨f.min, ⟨Nat.le_refl _, f.min_le_max⟩, rfl⟩
    · rename_i vs' hpart
      refine ih (fun v hv => ?_) h
      rw [Nat.testBit_or, Bool.or_eq_true, testBit_maskOf] at hv
      rcases hv with hv | hv
      · exact hmask v hv
      · exact inRange_of_readPart hpart v hv

/-- **A field that was read admits a value of its range.** -/
theorem exists_contains_of_read {f : Field} {word : String} {vs : Values}
    (h : f.read word = .ok vs) : ∃ v, f.InRange v ∧ vs.contains v = true := by
  unfold read at h
  split at h
  · cases h
    exact ⟨f.min, ⟨Nat.le_refl _, f.min_le_max⟩, rfl⟩
  · exact exists_contains_of_readParts (by simp) h

end Field

/-! ### Expressions -/

namespace Expression

theorem readField_eq_ok {f : Field} {word : String} {vs : Values} :
    readField f word = .ok vs ↔ f.read word = .ok vs := by
  unfold readField
  cases f.read word with
  | error e => exact iff_of_false (fun h => nomatch h) (fun h => nomatch h)
  | ok vs' =>
    constructor <;> intro h
    · cases h
      rfl
    · cases h
      rfl

/-- **An expression that was read** consists of five words, each read as its field, and a day field
is restricted unless its word is a bare star. -/
theorem of_parse {text : String} {e : Expression} (h : parse text = .ok e) :
    ∃ mi ho dm mo dw, Text.words text = [mi, ho, dm, mo, dw] ∧
      Field.minute.read mi = .ok e.minute ∧ Field.hour.read ho = .ok e.hour ∧
      Field.dayOfMonth.read dm = .ok e.dayOfMonth ∧ Field.month.read mo = .ok e.month ∧
      Field.dayOfWeek.read dw = .ok e.dayOfWeek ∧
      e.dayOfMonthRestricted = (dm != "*") ∧ e.dayOfWeekRestricted = (dw != "*") := by
  unfold parse at h
  split at h
  · rename_i mi ho dm mo dw hw
    simp only [bind, Except.bind] at h
    repeat' split at h
    all_goals cases h
    rename_i hmi _ _ hho _ _ hdm _ _ hmo _ _ hdw
    exact ⟨mi, ho, dm, mo, dw, hw, readField_eq_ok.1 hmi, readField_eq_ok.1 hho,
      readField_eq_ok.1 hdm, readField_eq_ok.1 hmo, readField_eq_ok.1 hdw, rfl, rfl⟩
  · cases h

/-- An expression that was read admits a minute of the hour. -/
theorem exists_minute_of_parse {text : String} {e : Expression} (h : parse text = .ok e) :
    ∃ m ≤ 59, e.minute.contains m = true := by
  obtain ⟨mi, -, -, -, -, -, hmi, -⟩ := of_parse h
  obtain ⟨m, hm, hc⟩ := Field.exists_contains_of_read hmi
  exact ⟨m, hm.2, hc⟩

/-- An expression that was read admits a month of the year. -/
theorem exists_month_of_parse {text : String} {e : Expression} (h : parse text = .ok e) :
    ∃ m, Field.month.InRange m ∧ e.month.contains m = true := by
  obtain ⟨-, -, -, mo, -, -, -, -, -, hmo, -⟩ := of_parse h
  exact Field.exists_contains_of_read hmo

/-- An expression that was read admits a day of the week. -/
theorem exists_dayOfWeek_of_parse {text : String} {e : Expression} (h : parse text = .ok e) :
    ∃ w ≤ 6, e.dayOfWeek.contains w = true := by
  obtain ⟨-, -, -, -, dw, -, -, -, -, -, hdw, -⟩ := of_parse h
  obtain ⟨w, hw, hc⟩ := Field.exists_contains_of_read hdw
  exact ⟨w, hw.2, hc⟩

/-- An expression that was read admits an hour of the day. -/
theorem exists_hour_of_parse {text : String} {e : Expression} (h : parse text = .ok e) :
    ∃ n ≤ 23, e.hour.contains n = true := by
  obtain ⟨-, ho, -, -, -, -, -, hho, -⟩ := of_parse h
  obtain ⟨n, hn, hc⟩ := Field.exists_contains_of_read hho
  exact ⟨n, hn.2, hc⟩

end Expression

end Timetable.Cron
