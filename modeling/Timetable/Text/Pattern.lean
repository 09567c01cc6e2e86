/-
**Search patterns.**

A search term is looked for with a pattern in which `%` stands for any stretch of text and `_` for
any one character.  ASCII letters are compared without regard to case, all other characters
exactly.  Neither pattern nor text is read past a NUL character, and the last two code points below
U+10000, which stand for no character, are read as the replacement character.

Main definitions:

* `Text.sameLetter` — equality of characters without regard to the case of ASCII letters;
* `Text.likeChars`, `Text.like` — **a pattern describes a text**;
* `Text.beforeNul` — what is read of a pattern or a text;
* `Text.contains` — the pattern of a search term, with any text before and after the term.
-/

set_option autoImplicit false
set_option relaxedAutoImplicit false

namespace Timetable.Text

/-- Two characters are the same up to the case of ASCII letters. -/
def sameLetter (c d : Char) : Bool :=
  c.toLower == d.toLower

/-- **A pattern describes a text**, character by character. -/
def likeChars : (pattern text : List Char) → Bool
  | [], text => text.isEmpty
  | '%' :: pattern, [] => likeChars pattern []
  | '%' :: pattern, c :: text => likeChars pattern (c :: text) || likeChars ('%' :: pattern) text
  | '_' :: pattern, _ :: text => likeChars pattern text
  | p :: pattern, c :: text => sameLetter p c && likeChars pattern text
  | _ :: _, [] => false
termination_by pattern text => pattern.length + text.length

/-- The character that is read for a code point: U+FFFE and U+FFFF are read as the replacement
character. -/
def charRead (c : Char) : Char :=
  if c = '\ufffe' ∨ c = '\uffff' then '\ufffd' else c

/-- What is read of a list of characters: those before the first NUL. -/
def beforeNul (cs : List Char) : List Char :=
  (cs.takeWhile (· != '\x00')).map charRead

/-- A pattern describes a text, both read up to their first NUL. -/
def like (pattern text : String) : Bool :=
  likeChars (beforeNul pattern.toList) (beforeNul text.toList)

/-- The pattern of a search term: the term with any text around it. -/
def termPattern (term : String) : String :=
  "%" ++ term ++ "%"

/-- A search term is found in a text. -/
def contains (term text : String) : Bool :=
  like (termPattern term) text

end Timetable.Text
