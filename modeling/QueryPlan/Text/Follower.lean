import QueryPlan.Text.CharWidth
import QueryPlan.Text.Emoji
import QueryPlan.Text.Ligature

/-!
# What follows a character

The width of a text is not the sum of the widths of its characters: letters
join to ligatures, and several characters make one emoji. Both are found from
the right, where the last character of such a group tells what may stand before
it. A `Context` is what a character has to know of the text behind it, and
`Context.before` gives the columns that the character adds and the context that
it is itself.
-/

namespace QueryPlan.Text

/-- What a character makes of the characters behind it. -/
inductive Follower where
  /-- Nothing that a character before it depends on. -/
  | plain
  /-- The last part of a ligature. -/
  | ending (part : Ending)
  /-- An emoji. -/
  | emoji
  /-- A modifier of skin tone. -/
  | modifier
  /-- That many regional indicators. -/
  | indicators (count : Nat)
  /-- An emoji with a joiner before it. -/
  | joinedEmoji
  /-- The frame of a key with an emoji joined to it. -/
  | joinedKeycap
  /-- That many regional indicators with an emoji joined to the last. -/
  | joinedIndicators (count : Nat)
  /-- The tags of a flag with an emoji joined to it: digits of the name, then
  letters. -/
  | joinedTags (digits letters : Nat)
  deriving DecidableEq, Repr

/-- Which style a variation selector asks for. -/
inductive Style where
  | text
  | emoji
  deriving DecidableEq, Repr

/-- What stands behind a character: a variation selector, if the next character
is one, and what follows. -/
structure Context where
  style? : Option Style
  follower : Follower
  deriving DecidableEq, Repr

namespace Follower

/-- The last part of a ligature, if one may go on. -/
def ofEnding? : Option Ending → Follower
  | some part => .ending part
  | none => plain

/-- What a character is to the one before it, if it stands for itself. -/
def ofChar (char : Char) : Follower :=
  match Ending.ofChar? char with
  | some part => .ending part
  | none =>
    if isIndicator char then .indicators 1
    else if isModifier char then .modifier
    else if presented.has char then .emoji
    else .plain

/-- Columns of a character that belongs together with what follows, and what it
is itself; nothing for a character that stands for itself. An emoji takes two
columns, whatever is joined to it, and so do two regional indicators. -/
def before? (char : Char) : Follower → Option (Int × Follower)
  | plain => none
  | ending part => (part.before? char).map fun (columns, rest) => (columns, ofEnding? rest)
  | emoji => if char = joiner then some (0, joinedEmoji) else none
  | modifier =>
    if modifiable.has char then some (0, emoji)
    else if char = joiner then some (0, joinedEmoji)
    else none
  | indicators count =>
    if isIndicator char then some (1, indicators (count + 1))
    else if char = joiner && 2 ≤ count then some (0, joinedEmoji)
    else none
  | joinedEmoji =>
    if char = '\u20e3' then some (0, joinedKeycap)
    else if isIndicator char then some (1, joinedIndicators 1)
    else if isModifier char then some (0, modifier)
    else if char.toNat = 0xe007f then some (0, joinedTags 0 0)
    else if presented.has char then some (0, emoji)
    else none
  | joinedKeycap => none
  | joinedIndicators count =>
    if isIndicator char then
      some (if count % 2 = 1 then -1 else 3, joinedIndicators (count + 1))
    else if char = joiner && 2 ≤ count then some (0, joinedEmoji)
    else none
  | joinedTags digits letters =>
    if isTagLetter char && digits = 0 && letters < 6 then some (0, joinedTags 0 (letters + 1))
    else if isTagDigit char && digits < 3 && letters ≤ 4 then
      some (0, joinedTags (digits + 1) letters)
    else if char.toNat = 0x1f3f4 && (digits = 3 || digits = 0 && 3 ≤ letters) then some (0, emoji)
    else none

/-- Whether a joiner and an emoji follow, to which another emoji can be joined. -/
def joinsEmoji : Follower → Bool
  | joinedEmoji | joinedKeycap => true
  | _ => false

/-- What is left when a variation selector stands before it that has nothing to
select from. Only a ligature goes on across it. -/
def acrossSelector : Follower → Follower
  | ending part => .ending part
  | _ => plain

end Follower

namespace Context

/-- The end of a text. -/
def empty : Context := ⟨none, .plain⟩

/-- Columns of a character that no selector changes, and the context that it is. -/
def beforeUnstyled (char : Char) (follower : Follower) : Int × Context :=
  if char ≤ '\u00a0' then (if char = '\n' then 0 else 1, empty)
  else if char = '\ufe0f' then
    (0, ⟨some .emoji, if follower.joinsEmoji then follower else follower.acrossSelector⟩)
  else if char = '\ufe0e' then (0, ⟨some .text, follower.acrossSelector⟩)
  else match follower.before? char with
    | some (columns, follower) => (columns, ⟨none, follower⟩)
    | none => (charWidth char, ⟨none, .ofChar char⟩)

/-- Columns that a character adds to the text behind it, and the context that it
is to the character before. -/
def before (char : Char) (context : Context) : Int × Context :=
  match context.style? with
  | none => beforeUnstyled char context.follower
  | some .emoji =>
    if styled.has char then (if context.follower.joinsEmoji then 0 else 2, ⟨none, .emoji⟩)
    else beforeUnstyled char context.follower.acrossSelector
  | some .text =>
    if hasNarrowText char then (1, empty)
    else beforeUnstyled char context.follower.acrossSelector

end Context

end QueryPlan.Text
