import QueryPlan.Text.Combining
import QueryPlan.Text.EastAsian

/-!
# Width of one character

How many columns of a terminal a character takes that stands alone. In a text
its neighbours have a say as well.
-/

namespace QueryPlan.Text

/-- Control characters. -/
def isControl (char : Char) : Bool := char.val < 0x20 || (0x7f ≤ char.val && char.val < 0xa0)

/-- Columns of a character that stands alone; a control character takes none.
A Khmer sign and a Khmer vowel that are written as words are wider than one
letter, and the initial Hangul filler is as wide as a syllable. -/
def charWidth (char : Char) : Nat :=
  if isControl char then 0
  else if char ≤ '\u00a0' then 1
  else if char = '\u17d8' then 3
  else if char = '\u17a4' || char = '\u115f' then 2
  else if isCombining char then 0
  else if wide.has char then 2
  else 1

end QueryPlan.Text
