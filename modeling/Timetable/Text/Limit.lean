/-
**Text cut to a length.**

Stored error texts and summaries are bounded.  The bound counts characters, so that no character is
ever torn apart, and the head of the text is what is kept.  A bound of zero means "no bound".

Main definitions:

* `Text.limit` — at most so many characters of a text, from its head.

Main results:

* `Text.toList_limit` — the kept characters are a prefix of the text;
* `Text.length_limit_le` — a positive bound is kept.
-/

set_option autoImplicit false
set_option relaxedAutoImplicit false

namespace Timetable.Text

/-- **The head of a text**: its first `max` characters, or all of it when `max` is zero.  A text
whose encoding is no longer than `max` bytes cannot have more characters than that, and is returned
without counting them. -/
def limit (max : Nat) (s : String) : String :=
  if max = 0 ∨ s.utf8ByteSize ≤ max then s else String.ofList (s.toList.take max)

@[simp] theorem limit_zero (s : String) : limit 0 s = s := by simp [limit]

theorem size_utf8Encode_cons (c : Char) (cs : List Char) :
    (c :: cs).utf8Encode.size = c.utf8Size + cs.utf8Encode.size := by
  rw [List.utf8Encode_cons, ByteArray.size_append, List.utf8Encode_singleton, List.size_toByteArray,
    String.length_utf8EncodeChar]

/-- Every character takes at least one byte. -/
theorem length_le_size_utf8Encode (cs : List Char) : cs.length ≤ cs.utf8Encode.size := by
  induction cs with
  | nil => exact Nat.zero_le _
  | cons c cs ih =>
    have hpos := c.utf8Size_pos
    rw [size_utf8Encode_cons, List.length_cons]
    omega

/-- **The kept characters are a prefix of the text**, all of it if there is no bound. -/
theorem toList_limit (max : Nat) (s : String) :
    (limit max s).toList = if max = 0 then s.toList else s.toList.take max := by
  have hle := length_le_size_utf8Encode s.toList
  rw [String.utf8Encode_toList] at hle
  unfold limit
  by_cases hzero : max = 0
  · simp [hzero]
  · by_cases hshort : s.utf8ByteSize ≤ max
    · have h : s.toList.length ≤ max := Nat.le_trans hle hshort
      simp only [hzero, hshort, or_true, if_true, if_false, List.take_of_length_le h]
    · simp [hzero, hshort]

/-- **A positive bound is kept.** -/
theorem length_limit_le {max : Nat} (h : 0 < max) (s : String) : (limit max s).length ≤ max := by
  rw [← String.length_toList, toList_limit, if_neg (Nat.ne_of_gt h)]
  exact List.length_take_le max s.toList

end Timetable.Text
