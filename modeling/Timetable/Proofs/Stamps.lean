/-
**Stamps identify instants.**

An instant is written out as a date and a time of day, or as a bare number of seconds where there is
no date for it.  No two instants are written alike: a date of the calendar and a time of day make
one instant, a year is told from its sign and its digits, the other parts have two digits each, and
a bare number has no letter in it.  Stamps of years of four digits also sort as their instants do,
since readings of the calendar and the clock are ordered by their first difference, and digits of
one length by their first difference as well.

Main definitions:

* `Date.parts`, `Civil.parts` — what a reading consists of, from the year on;
* `Civil.instant` — the instant of a reading;
* `Instant.InFourDigits` — an instant of the years from 0 to 9999.

Main results:

* `Text.fixedDigits_append_lt` — **digits of one length sort as their numbers do**;
* `Text.signed?_intText`, `Instant.signed?_stampYear` — numbers and years are read back;
* `Date.parts_ofDay_lt`, `Civil.parts_ofInstant_lt` — **later days and instants have later
  readings**;
* `Instant.InFourDigits.representable` — years of four digits are representable;
* `Instant.stampChars_ofInstant_injective` — different readings are written differently;
* `Instant.stamp_identifies` — **stamps identify instants, and sort as they do**.
-/

import Timetable.Proofs.Calendar
import Timetable.Proofs.Cron.Grammar
import Timetable.Calendar.Instant

set_option autoImplicit false
set_option relaxedAutoImplicit false

namespace Timetable

/-! ### Digits -/

namespace Text

/-- The last digits of a number are read back. -/
theorem digitsFrom?_fixedDigits (w n : Nat) :
    digitsFrom? 0 (fixedDigits w n) = some (n % 10 ^ w) := by
  induction w generalizing n with
  | zero => simp [fixedDigits, digitsFrom?, Nat.mod_one]
  | succ w ih =>
    rw [fixedDigits, digitsFrom?_append, ih, Option.bind_some,
      digitsFrom?_digitChar _ _ (Nat.mod_lt n (by decide)), Nat.pow_succ', Nat.mod_mul]
    congr 1
    omega

theorem digits?_fixedDigits {w n : Nat} (hn : n < 10 ^ (w + 1)) :
    digits? (fixedDigits (w + 1) n) = some n := by
  have hread := digitsFrom?_fixedDigits (w + 1) n
  rw [Nat.mod_eq_of_lt hn] at hread
  cases h : fixedDigits (w + 1) n with
  | nil => simp [fixedDigits] at h
  | cons c cs => rwa [h] at hread

theorem fixedDigits_append_inj {w m n : Nat} {xs ys : List Char} (hm : m < 10 ^ w) (hn : n < 10 ^ w)
    (h : fixedDigits w m ++ xs = fixedDigits w n ++ ys) : m = n ∧ xs = ys := by
  obtain ⟨hdigits, hrest⟩ := List.append_inj h (by simp)
  have hread := digitsFrom?_fixedDigits w m
  rw [hdigits, digitsFrom?_fixedDigits, Nat.mod_eq_of_lt hm, Nat.mod_eq_of_lt hn] at hread
  exact ⟨(Option.some.inj hread).symm, hrest⟩

theorem digitChar_lt_digitChar {a b : Nat} (hb : b < 10) (h : a < b) :
    Nat.digitChar a < Nat.digitChar b := by
  have key : ∀ b : Fin 10, ∀ a : Fin b, Nat.digitChar a < Nat.digitChar b := by decide
  exact key ⟨b, hb⟩ ⟨a, h⟩

/-- **Digits of one length sort as their numbers do**, and what follows them decides between equal
numbers. -/
theorem fixedDigits_append_lt {w m n : Nat} {xs ys : List Char} (hn : n < 10 ^ w)
    (h : m < n ∨ m = n ∧ xs < ys) : fixedDigits w m ++ xs < fixedDigits w n ++ ys := by
  induction w generalizing m n xs ys with
  | zero =>
    obtain ⟨-, hxs⟩ : m = n ∧ xs < ys := h.resolve_left (by simp at hn; omega)
    exact hxs
  | succ w ih =>
    -- the last digit goes over to what follows
    rw [fixedDigits, fixedDigits, List.append_assoc, List.append_assoc]
    refine ih (by rw [Nat.pow_succ] at hn; omega) ?_
    rw [List.singleton_append, List.singleton_append, List.cons_lt_cons_iff]
    rcases h with h | ⟨rfl, hxs⟩
    · rcases Nat.lt_or_ge (m / 10) (n / 10) with hdiv | hdiv
      · exact Or.inl hdiv
      · have hmod : m % 10 < n % 10 := by omega
        exact Or.inr ⟨by omega, Or.inl (digitChar_lt_digitChar (Nat.mod_lt n (by decide)) hmod)⟩
    · exact Or.inr ⟨rfl, Or.inr ⟨rfl, hxs⟩⟩

/-- The same behind a separator, with numbers that are compared as integers. -/
theorem separated_lt {w m n : Nat} {xs ys : List Char} {c : Char} (hn : n < 10 ^ w)
    (h : (m : Int) < n ∨ (m : Int) = n ∧ xs < ys) :
    c :: (fixedDigits w m ++ xs) < c :: (fixedDigits w n ++ ys) := by
  have hrest : fixedDigits w m ++ xs < fixedDigits w n ++ ys :=
    fixedDigits_append_lt hn (by simpa using h)
  exact List.cons_lt_cons_self.2 hrest

/-! ### Signed numbers -/

variable {lo hi : Int} {ds : List Char} {n : Nat}

/-- Digits are a number without a sign. -/
theorem signed?_digits (h : digits? ds = some n) (hlo : lo ≤ n) (hhi : (n : Int) ≤ hi) :
    signed? lo hi ds = some (n : Int) := by
  obtain ⟨-, hdigits, -⟩ := digits?_eq_some_iff.1 h
  have hplus : dropPlus ds = ds := by
    unfold dropPlus
    split
    · exact absurd (hdigits '+' List.mem_cons_self) (by decide)
    · rfl
  unfold signed?
  split
  · exact absurd (hdigits '-' List.mem_cons_self) (by decide)
  · simp [hplus, h, hlo, hhi]

theorem signed?_plus (h : digits? ds = some n) (hlo : lo ≤ n) (hhi : (n : Int) ≤ hi) :
    signed? lo hi ('+' :: ds) = some (n : Int) := by
  simp [signed?, dropPlus, h, hlo, hhi]

theorem signed?_minus (h : digits? ds = some n) (hlo : lo ≤ -n) (hhi : -(n : Int) ≤ hi) :
    signed? lo hi ('-' :: ds) = some (-(n : Int)) := by
  simp [signed?, h, hlo, hhi]

/-- **A number that was written is read back.** -/
theorem signed?_intText {i : Int} (hlo : lo ≤ i) (hhi : i ≤ hi) :
    signed? lo hi (intText i).toList = some i := by
  have hread := digits?_decimal i.natAbs
  unfold intText
  split
  next hneg =>
    have hi' : -(i.natAbs : Int) = i := by omega
    rw [String.toList_ofList, signed?_minus hread (by omega) (by omega), hi']
  next hneg =>
    have hi' : (i.natAbs : Int) = i := by omega
    rw [natText, String.toList_ofList, signed?_digits hread (by omega) (by omega), hi']

/-- Numbers that are read back from what is written are written differently. -/
theorem injective_of_signed? {write : Int → List Char}
    (hread : ∀ lo hi i, lo ≤ i → i ≤ hi → signed? lo hi (write i) = some i) :
    Function.Injective write := by
  intro i j h
  have hi := hread (min i j) (max i j) i (Int.min_le_left i j) (Int.le_max_left i j)
  have hj := hread (min i j) (max i j) j (Int.min_le_right i j) (Int.le_max_right i j)
  rw [h, hj] at hi
  exact (Option.some.inj hi).symm

theorem intText_injective : Function.Injective intText := by
  have hchars : Function.Injective fun i => (intText i).toList :=
    injective_of_signed? fun _ _ _ => signed?_intText
  intro i j h
  exact hchars (congrArg String.toList h)

/-- There is no letter in a number. -/
theorem not_mem_intText {c : Char} (hsign : c ≠ '-') (hdigit : c.isDigit = false) (i : Int) :
    c ∉ (intText i).toList := by
  obtain ⟨-, hdigits, -⟩ := digits?_eq_some_iff.1 (digits?_decimal i.natAbs)
  have hno : c ∉ decimal i.natAbs := fun hc => by simp [hdigits c hc] at hdigit
  unfold intText
  split
  · rw [String.toList_ofList, List.mem_cons]
    exact not_or.2 ⟨hsign, hno⟩
  · rwa [natText, String.toList_ofList]

end Text

/-! ### Days and dates -/

namespace Date

/-- What a date consists of, from the year on. -/
def parts (d : Date) : List Int := [d.year, d.month, d.dayOfMonth]

/-- **Later days have later dates**: the first part in which they differ is greater. -/
theorem parts_ofDay_lt {m n : Int} (h : m < n) : (ofDay m).parts < (ofDay n).parts := by
  obtain ⟨y, x, hx, rfl, hm⟩ := exists_march m
  obtain ⟨y', x', hx', rfl, hn⟩ := exists_march n
  -- the days are compared by their years counted from March, and then inside the year
  have hlater : y < y' ∨ y = y' ∧ x < x' := by
    rcases Int.lt_trichotomy y y' with hy | rfl | hy
    · exact Or.inl hy
    · exact Or.inr ⟨rfl, by omega⟩
    · have := marchStart_add_lt hx' hy x
      omega
  obtain ⟨k, -, hk, hlo, hhi⟩ := exists_marchMonth hx.le
  obtain ⟨i, rfl⟩ := Nat.exists_eq_add_of_le hlo
  obtain ⟨k', -, hk', hlo', hhi'⟩ := exists_marchMonth hx'.le
  obtain ⟨i', rfl⟩ := Nat.exists_eq_add_of_le hlo'
  rw [hm, hn, ofMarch_daysBefore_add hk hhi, ofMarch_daysBefore_add hk' hhi']
  simp only [parts, List.cons_lt_cons_iff]
  simp only [daysBefore] at hlater hhi hhi'
  split <;> split <;> omega

end Date

/-! ### Readings and instants -/

namespace Civil

/-- What a reading consists of, from the year on. -/
def parts (c : Civil) : List Int :=
  c.date.parts ++ [(c.hour : Int), (c.minute : Int), (c.second : Int)]

/-- The instant of a reading. -/
def instant (c : Civil) : Int :=
  c.date.day * Instant.day + c.hour * Instant.hour + c.minute * Instant.minute + c.second

/-- **An instant is read back from its reading.** -/
theorem instant_ofInstant (t : Int) : (ofInstant t).instant = t := by
  simp only [instant, ofInstant, Date.day_ofDay, Instant.day, Instant.hour, Instant.minute]
  omega

/-- The parts of a reading that have two digits. -/
structure TwoDigits (c : Civil) : Prop where
  month : c.date.month < 100
  dayOfMonth : c.date.dayOfMonth < 100
  hour : c.hour < 100
  minute : c.minute < 100
  second : c.second < 100

theorem twoDigits_ofInstant (t : Int) : (ofInstant t).TwoDigits := by
  obtain ⟨-, hmonth, -, hday⟩ := Date.valid_ofDay (t / Instant.day)
  have hdays (y : Int) (m : Nat) : Date.daysInMonth y m ≤ 31 := by
    unfold Date.daysInMonth
    split
    · split <;> decide
    · split <;> decide
  have hshort := hdays (Date.ofDay (t / Instant.day)).year (Date.ofDay (t / Instant.day)).month
  constructor
  · simp only [ofInstant]; omega
  · simp only [ofInstant]; omega
  · simp only [ofInstant, Instant.day]; omega
  · simp only [ofInstant, Instant.day]; omega
  · simp only [ofInstant]; omega

/-- **Later instants have later readings.** -/
theorem parts_ofInstant_lt {s t : Int} (h : s < t) : (ofInstant s).parts < (ofInstant t).parts := by
  rcases Int.lt_or_le (s / Instant.day) (t / Instant.day) with hday | hday
  · have hdate := Date.parts_ofDay_lt hday
    simp only [parts, ofInstant, Date.parts, List.cons_append, List.nil_append,
      List.cons_lt_cons_iff] at hdate ⊢
    simp only [List.not_lt_nil, and_false, or_false] at hdate
    tauto
  · have hsame : s / Instant.day = t / Instant.day := by
      simp only [Instant.day] at hday ⊢
      omega
    have hlater : (s % Instant.day).toNat < (t % Instant.day).toNat := by
      simp only [Instant.day] at hsame ⊢
      omega
    rw [parts, parts, ofInstant, ofInstant, hsame]
    refine List.append_left_lt ?_
    simp only [List.cons_lt_cons_iff]
    omega

theorem year_le_of_le {s t : Int} (h : s ≤ t) :
    (ofInstant s).date.year ≤ (ofInstant t).date.year := by
  rcases h.eq_or_lt with rfl | hlt
  · exact Int.le_refl _
  · have hparts := parts_ofInstant_lt hlt
    simp only [parts, Date.parts, List.cons_append, List.cons_lt_cons_iff] at hparts
    omega

end Civil

namespace Instant

/-! ### Stamps -/

/-- **A year is read back.** -/
theorem signed?_stampYear {lo hi y : Int} (hlo : lo ≤ y) (hhi : y ≤ hi) :
    Text.signed? lo hi (stampYear y) = some y := by
  unfold stampYear
  split
  next hfour =>
    have hread : Text.digits? (Text.fixedDigits 4 y.natAbs) = some y.natAbs :=
      Text.digits?_fixedDigits (by omega)
    have hy : (y.natAbs : Int) = y := by omega
    rw [Text.signed?_digits hread (by omega) (by omega), hy]
  next hfour =>
    have hread : Text.digits? (if y.natAbs ≤ 9999 then Text.fixedDigits 4 y.natAbs
        else Text.decimal y.natAbs) = some y.natAbs := by
      split
      · exact Text.digits?_fixedDigits (by omega)
      · exact Text.digits?_decimal _
    by_cases hneg : y < 0
    · have hy : -(y.natAbs : Int) = y := by omega
      simp only [hneg, if_true]
      rw [Text.signed?_minus hread (by omega) (by omega), hy]
    · have hy : (y.natAbs : Int) = y := by omega
      simp only [hneg, if_false]
      rw [Text.signed?_plus hread (by omega) (by omega), hy]

theorem stampYear_injective : Function.Injective stampYear :=
  Text.injective_of_signed? fun _ _ _ => signed?_stampYear

/-- A stamp, part by part. -/
theorem stampChars_eq (c : Civil) : stampChars c = stampYear c.date.year ++
    ('-' :: (Text.fixedDigits 2 c.date.month ++ '-' :: (Text.fixedDigits 2 c.date.dayOfMonth ++
      'T' :: (Text.fixedDigits 2 c.hour ++ ':' :: (Text.fixedDigits 2 c.minute ++
        ':' :: (Text.fixedDigits 2 c.second ++ ['Z'])))))) := by
  simp [stampChars]

/-- **Different readings are written differently.** -/
theorem instant_eq_of_stampChars_eq {c c' : Civil} (hc : c.TwoDigits) (hc' : c'.TwoDigits)
    (h : stampChars c = stampChars c') : c.instant = c'.instant := by
  rw [stampChars_eq, stampChars_eq] at h
  -- what follows the year has a fixed length, so years are told apart whatever their lengths
  obtain ⟨hyear, h⟩ := List.append_inj' h (by simp)
  obtain ⟨hmonth, h⟩ := Text.fixedDigits_append_inj hc.month hc'.month (List.cons.inj h).2
  obtain ⟨hday, h⟩ := Text.fixedDigits_append_inj hc.dayOfMonth hc'.dayOfMonth (List.cons.inj h).2
  obtain ⟨hhour, h⟩ := Text.fixedDigits_append_inj hc.hour hc'.hour (List.cons.inj h).2
  obtain ⟨hminute, h⟩ := Text.fixedDigits_append_inj hc.minute hc'.minute (List.cons.inj h).2
  obtain ⟨hsecond, -⟩ := Text.fixedDigits_append_inj hc.second hc'.second (List.cons.inj h).2
  have hdate : c.date = c'.date := by
    rw [Date.mk.injEq]
    exact ⟨stampYear_injective hyear, hmonth, hday⟩
  rw [Civil.instant, Civil.instant, hdate, hhour, hminute, hsecond]

theorem stampChars_ofInstant_injective :
    Function.Injective fun t => stampChars (Civil.ofInstant t) := by
  intro s t h
  have hinstant :=
    instant_eq_of_stampChars_eq (Civil.twoDigits_ofInstant s) (Civil.twoDigits_ofInstant t) h
  rwa [Civil.instant_ofInstant, Civil.instant_ofInstant] at hinstant

/-- An instant of the years from 0 to 9999. -/
def InFourDigits (t : Int) : Prop :=
  0 ≤ (Civil.ofInstant t).date.year ∧ (Civil.ofInstant t).date.year ≤ 9999

instance (t : Int) : Decidable (InFourDigits t) := inferInstanceAs (Decidable (_ ∧ _))

theorem InFourDigits.representable {t : Int} (h : InFourDigits t) : Representable t := by
  have hearliest : (Civil.ofInstant earliest).date.year = -262143 := by decide
  have hlatest : (Civil.ofInstant latest).date.year = 262142 := by decide
  obtain ⟨hlo, hhi⟩ := h
  constructor
  · by_contra hbefore
    have hyear := Civil.year_le_of_le (Int.le_of_lt (Int.not_le.1 hbefore))
    omega
  · by_contra hafter
    have hyear := Civil.year_le_of_le (Int.le_of_lt (Int.not_le.1 hafter))
    omega

/-- Years of four digits have no sign, so the first difference decides from the year on. -/
theorem stampChars_lt {c c' : Civil} (hc' : c'.TwoDigits) (hlo : 0 ≤ c.date.year)
    (hhi : c'.date.year ≤ 9999) (h : c.parts < c'.parts) : stampChars c < stampChars c' := by
  simp only [Civil.parts, Date.parts, List.cons_append, List.nil_append, List.cons_lt_cons_iff] at h
  have hyear : stampYear c.date.year = Text.fixedDigits 4 c.date.year.natAbs :=
    if_pos ⟨hlo, by omega⟩
  have hyear' : stampYear c'.date.year = Text.fixedDigits 4 c'.date.year.natAbs :=
    if_pos ⟨by omega, hhi⟩
  rw [stampChars_eq, stampChars_eq, hyear, hyear']
  refine Text.fixedDigits_append_lt (by omega)
    (h.imp (fun h => by omega) fun ⟨hyear, h⟩ => ⟨by omega, ?_⟩)
  refine Text.separated_lt hc'.month (h.imp_right fun ⟨hmonth, h⟩ => ⟨hmonth, ?_⟩)
  refine Text.separated_lt hc'.dayOfMonth (h.imp_right fun ⟨hday, h⟩ => ⟨hday, ?_⟩)
  refine Text.separated_lt hc'.hour (h.imp_right fun ⟨hhour, h⟩ => ⟨hhour, ?_⟩)
  refine Text.separated_lt hc'.minute (h.imp_right fun ⟨hminute, h⟩ => ⟨hminute, ?_⟩)
  exact Text.separated_lt hc'.second (h.imp_right fun ⟨_, hnil⟩ => absurd hnil (List.not_lt_nil []))

theorem stamp_lt {s t : Int} (hs : InFourDigits s) (ht : InFourDigits t) (h : s < t) :
    stamp s < stamp t := by
  rw [stamp, stamp, if_pos hs.representable, if_pos ht.representable, String.lt_iff,
    String.toList_ofList, String.toList_ofList]
  exact stampChars_lt (Civil.twoDigits_ofInstant t) hs.1 ht.2 (Civil.parts_ofInstant_lt h)

theorem stamp_injective : Function.Injective stamp := by
  intro s t h
  have hletter (c : Civil) (u : Int) : String.ofList (stampChars c) ≠ Text.intText u := by
    intro heq
    refine Text.not_mem_intText (c := 'T') (by decide) (by decide) u ?_
    rw [← heq, String.toList_ofList, stampChars_eq]
    simp
  unfold stamp at h
  split at h <;> split at h
  · exact stampChars_ofInstant_injective (String.ofList_inj.1 h)
  · exact absurd h (hletter _ t)
  · exact absurd h.symm (hletter _ s)
  · exact Text.intText_injective h

/-- **Stamps identify instants, and sort as they do.**  No two numbers of seconds have the same
stamp, whether they are written as dates or, where they are not representable, as bare numbers; and
stamps of the years from 0 to 9999 sort as texts exactly as their instants do. -/
theorem stamp_identifies :
    (∀ s t, s ≠ t → stamp s ≠ stamp t) ∧
    ∀ s t, InFourDigits s → InFourDigits t → (stamp s < stamp t ↔ s < t) := by
  refine ⟨fun s t hne heq => hne (stamp_injective heq),
    fun s t hs ht => ⟨fun h => ?_, stamp_lt hs ht⟩⟩
  rcases Int.lt_trichotomy s t with hlt | rfl | hgt
  · exact hlt
  · exact absurd h (String.lt_irrefl _)
  · exact absurd h (String.lt_asymm (stamp_lt ht hs hgt))

/-- The first second of the year 0 and the last one of the year 9999; and the last representable
second and the one after it, which has no date. -/
theorem stamp_identifies_edges :
    InFourDigits (-62167219200) ∧ InFourDigits 253402300799 ∧
      stamp (-62167219200) < stamp 253402300799 ∧
      ¬ Representable (latest + 1) ∧ stamp latest ≠ stamp (latest + 1) := by
  have hfirst : InFourDigits (-62167219200) := by decide
  have hlast : InFourDigits 253402300799 := by decide
  exact ⟨hfirst, hlast, (stamp_identifies.2 _ _ hfirst hlast).2 (by decide), by decide,
    stamp_identifies.1 _ _ (by decide)⟩

end Instant

end Timetable
