/-
**Cutting texts.**

A text is cut where a character begins.  To find the place, characters are counted from the front
while their bytes are added up, and the text is cut in its bytes there; a text of no more bytes than
characters are asked for is returned at once.  This module says that this is the head of the text in
characters, for every mixture of characters of one to four bytes: no character is torn apart, the
head is as long as it can be, and cutting twice is cutting once.

Main definitions:

* `Text.startOf?` — the byte at which a character begins;
* `Text.cutBytes` — **a text cut in its bytes**.

Main results:

* `Text.startOf?_append_cons` — where a character begins;
* `Text.toByteArray_limit` — **the shortcut changes nothing**: what is kept is what the cut in the
  bytes leaves;
* `Text.limit_limit` — cutting twice is cutting once;
* `Text.limit_cuts` — **what is kept of a text**.
-/

import Timetable.Text.Limit

set_option autoImplicit false
set_option relaxedAutoImplicit false

namespace Timetable.Text

/-! ### Cutting bytes -/

/-- The byte at which the character with a number begins, if there are more characters than that. -/
def startOf? : List Char → Nat → Option Nat
  | [], _ => none
  | _ :: _, 0 => some 0
  | c :: cs, n + 1 => (startOf? cs n).map (c.utf8Size + ·)

/-- **A text cut in its bytes**: those in front of the character with a number, or all if there is
no such character. -/
def cutBytes (max : Nat) (s : String) : ByteArray :=
  match startOf? s.toList max with
  | some start => s.toByteArray.extract 0 start
  | none => s.toByteArray

theorem startOf?_eq_none {cs : List Char} {n : Nat} (h : cs.length ≤ n) : startOf? cs n = none := by
  induction cs generalizing n with
  | nil => rfl
  | cons c cs ih =>
    cases n with
    | zero => simp at h
    | succ n => rw [startOf?, ih (Nat.le_of_succ_le_succ h), Option.map_none]

/-- **A character begins where the bytes of those in front of it end.** -/
theorem startOf?_append_cons (front : List Char) (c : Char) (back : List Char) :
    startOf? (front ++ c :: back) front.length = some front.utf8Encode.size := by
  induction front with
  | nil => rfl
  | cons d front ih =>
    rw [List.cons_append, List.length_cons, startOf?, ih, Option.map_some, size_utf8Encode_cons]

variable {max : Nat}

theorem toList_limit_of_pos (h : 0 < max) (s : String) :
    (limit max s).toList = s.toList.take max := by
  rw [toList_limit, if_neg (Nat.ne_of_gt h)]

/-- **The shortcut changes nothing**: what is kept of a text is what the cut in its bytes leaves. -/
theorem toByteArray_limit (h : 0 < max) (s : String) :
    (limit max s).toByteArray = cutBytes max s := by
  rw [← String.utf8Encode_toList, toList_limit_of_pos h, cutBytes, ← String.utf8Encode_toList]
  by_cases hlong : max < s.toList.length
  · obtain ⟨front, c, back, hsplit, hfront⟩ :
        ∃ front c back, s.toList = front ++ c :: back ∧ front.length = max :=
      ⟨s.toList.take max, s.toList[max], s.toList.drop (max + 1),
        by rw [← List.drop_eq_getElem_cons hlong, List.take_append_drop],
        List.length_take_of_le (Nat.le_of_lt hlong)⟩
    rw [hsplit, ← hfront, startOf?_append_cons, List.take_left, List.utf8Encode_append]
    exact (ByteArray.extract_append_eq_left rfl).symm
  · have hshort : s.toList.length ≤ max := Nat.le_of_not_lt hlong
    rw [startOf?_eq_none hshort, List.take_of_length_le hshort]

/-- **Cutting twice is cutting once.** -/
theorem limit_limit {a b : Nat} (ha : 0 < a) (hb : 0 < b) (s : String) :
    limit b (limit a s) = limit (min a b) s := by
  have hmin : 0 < min a b := Nat.lt_min.2 ⟨ha, hb⟩
  rw [← String.toList_inj, toList_limit_of_pos hb, toList_limit_of_pos ha, toList_limit_of_pos hmin,
    List.take_take, Nat.min_comm]

/-- **What is kept of a text.**  Without a bound, all of it.  With one, a beginning of the text that
has as many characters as the bound allows or the text has, which is what is left when the text is
cut in its bytes where the next character begins; and a text that is cut to one bound and then to
another is cut to the smaller one. -/
theorem limit_cuts (s : String) :
    limit 0 s = s ∧
    (∀ max, 0 < max →
      (∃ rest, s = limit max s ++ rest) ∧ (limit max s).length = min max s.length ∧
        (limit max s).toByteArray = cutBytes max s) ∧
    ∀ a b, 0 < a → 0 < b → limit b (limit a s) = limit (min a b) s := by
  refine ⟨limit_zero s,
    fun max hmax => ⟨⟨String.ofList (s.toList.drop max), ?_⟩, ?_, toByteArray_limit hmax s⟩,
    fun a b ha hb => limit_limit ha hb s⟩
  · rw [← String.toList_inj, String.toList_append, toList_limit_of_pos hmax, String.toList_ofList,
      List.take_append_drop]
  · rw [← String.length_toList, ← String.length_toList, toList_limit_of_pos hmax, List.length_take]

/-- Four characters of one, three, four and two bytes, cut to three and then to two of them. -/
theorem limit_cuts_mixed :
    0 < 3 ∧ 0 < 2 ∧ (∃ rest, "a€𝄞é" = limit 3 "a€𝄞é" ++ rest) ∧
      (limit 3 "a€𝄞é").length = min 3 "a€𝄞é".length ∧
      (limit 3 "a€𝄞é").toByteArray = cutBytes 3 "a€𝄞é" ∧
      limit 2 (limit 3 "a€𝄞é") = limit (min 3 2) "a€𝄞é" := by
  obtain ⟨-, hcut, htwice⟩ := limit_cuts "a€𝄞é"
  obtain ⟨hrest, hlength, hbytes⟩ := hcut 3 (by decide)
  exact ⟨by decide, by decide, hrest, hlength, hbytes, htwice 3 2 (by decide) (by decide)⟩

end Timetable.Text
