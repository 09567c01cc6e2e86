/-
**Blank space, and text read through it.**

Names, tasks, expressions and settings arrive as text that people typed, so the blanks around a
text and between its words carry no meaning.  A character is *blank* when Unicode gives it the
`White_Space` property; everything below is stated over lists of characters first and then carried
over to strings.

Main definitions:

* `Text.isBlank` — the `White_Space` characters;
* `Text.trim` — a text without the blanks around it;
* `Text.splitWhere` — the pieces between the characters of a class, empty pieces kept;
* `Text.words` — the maximal blank-free pieces of a text, in order;
* `Text.nonBlank?` — the trimmed text, if anything is left of it.

Main results:

* `Text.isBlank_of_isWhitespace` — every character that `Char.isWhitespace` knows is blank;
* `Text.flatten_splitWhere` — splitting drops the separators and nothing else.
-/

set_option autoImplicit false
set_option relaxedAutoImplicit false

namespace Timetable.Text

/-! ### Blank characters -/

/-- The characters with the Unicode property `White_Space`. -/
def isBlank (c : Char) : Bool :=
  let n := c.toNat
  (9 ≤ n && n ≤ 13) || n == 0x20 || n == 0x85 || n == 0xA0 || n == 0x1680 ||
    (0x2000 ≤ n && n ≤ 0x200A) || n == 0x2028 || n == 0x2029 || n == 0x202F || n == 0x205F ||
    n == 0x3000

/-- The blanks of ASCII that core knows are blank here too. -/
theorem isBlank_of_isWhitespace {c : Char} (h : c.isWhitespace = true) : isBlank c = true := by
  simp only [Char.isWhitespace, Bool.or_eq_true, decide_eq_true_eq] at h
  rcases h with ((h | h) | h) | h <;> subst h <;> decide

/-! ### Trimming -/

/-- A list of characters without the blanks at its two ends. -/
def trimChars (cs : List Char) : List Char :=
  ((cs.dropWhile isBlank).reverse.dropWhile isBlank).reverse

@[simp] theorem trimChars_nil : trimChars [] = [] := rfl

/-- A text without the blanks around it. -/
def trim (s : String) : String :=
  String.ofList (trimChars s.toList)

@[simp] theorem toList_trim (s : String) : (trim s).toList = trimChars s.toList := by
  simp [trim]

/-- The trimmed text, or nothing when only blanks were there. -/
def nonBlank? (s : String) : Option String :=
  let t := trim s
  if t = "" then none else some t

/-! ### Splitting -/

/-- The pieces of a list between the characters of a class; adjacent separators leave an empty
piece between them, and there is always at least one piece. -/
def splitWhere (p : Char → Bool) : List Char → List (List Char)
  | [] => [[]]
  | c :: cs =>
    if p c then [] :: splitWhere p cs
    else
      match splitWhere p cs with
      | [] => [[c]]
      | w :: ws => (c :: w) :: ws

@[simp] theorem splitWhere_nil (p : Char → Bool) : splitWhere p [] = [[]] := rfl

theorem splitWhere_ne_nil (p : Char → Bool) (cs : List Char) : splitWhere p cs ≠ [] := by
  cases cs with
  | nil => simp
  | cons c cs =>
    unfold splitWhere
    split
    · simp
    · split <;> simp

/-- Splitting drops the separators and nothing else. -/
theorem flatten_splitWhere (p : Char → Bool) (cs : List Char) :
    (splitWhere p cs).flatten = cs.filter (fun c => !p c) := by
  induction cs with
  | nil => rfl
  | cons c cs ih =>
    unfold splitWhere
    by_cases h : p c = true
    · simp [h, ih]
    · have hne := splitWhere_ne_nil p cs
      cases hs : splitWhere p cs with
      | nil => exact absurd hs hne
      | cons w ws =>
        rw [hs] at ih
        simp only [h, Bool.false_eq_true, if_false, List.filter_cons, Bool.not_false, if_true]
        simpa using ih

/-- The maximal blank-free pieces of a list of characters, in order. -/
def wordChars (cs : List Char) : List (List Char) :=
  (splitWhere isBlank cs).filter (fun w => !w.isEmpty)

/-- **The words of a text**: its maximal blank-free pieces, in order. -/
def words (s : String) : List String :=
  (wordChars s.toList).map String.ofList

/-- Words joined by single spaces. -/
def unwords (ws : List String) : String :=
  " ".intercalate ws

/-! ### Letter case -/

/-- A text with its ASCII capitals made small; other letters are left alone. -/
def asciiLower (s : String) : String :=
  String.ofList (s.toList.map Char.toLower)

/-- A text with its ASCII letters made capital. -/
def asciiUpper (s : String) : String :=
  String.ofList (s.toList.map Char.toUpper)

end Timetable.Text
