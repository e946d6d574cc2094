import QueryPlan.Text.Combining

/-!
# Ligatures

Letters that join and take fewer columns together than apart. A ligature is
found from its last part: `Ending.ofChar?` tells which characters may be one, and
`Ending.before?` which characters before it belong to the ligature.
-/

namespace QueryPlan.Text

/-- Joins the characters on either side. -/
def joiner : Char := '\u200d'

/-- The last part of a ligature. `joined` tells whether a joiner stands before it. -/
inductive Ending where
  /-- An Arabic alef. -/
  | alef
  /-- The Hebrew letter lamed. -/
  | lamed (joined : Bool)
  /-- The Buginese letter ya. -/
  | ya (joined : Bool)
  /-- The Buginese vowel sign i, joined to ya. -/
  | vowelYa
  /-- A Tifinagh consonant. -/
  | consonant (joined : Bool)
  /-- A Tifinagh consonant with the joiner of this script before it. -/
  | linkedConsonant
  /-- One of the Lisu tones that another tone combines with. -/
  | tone
  /-- The Old Turkic letter i. -/
  | orkhonI (joined : Bool)
  /-- A Khmer letter that has a form below the line. -/
  | subscript
  deriving DecidableEq, Repr

namespace Ending

/-- The Arabic letters lam, which an alef joins. -/
def isLam (char : Char) : Bool :=
  CodePoints.has [(0x644, 0x644), (0x6b5, 0x6b8), (0x76a, 0x76a), (0x8a6, 0x8a6),
    (0x8c7, 0x8c7)] char

/-- The Arabic letters alef. -/
def isAlef (char : Char) : Bool :=
  CodePoints.has [(0x622, 0x623), (0x625, 0x625), (0x627, 0x627), (0x671, 0x673), (0x675, 0x675),
    (0x773, 0x774), (0x870, 0x882)] char

/-- Khmer letters that have a form below the line. -/
def hasSubscript (char : Char) : Bool :=
  CodePoints.has [(0x1780, 0x1782), (0x1784, 0x1787), (0x1789, 0x178c), (0x178e, 0x1793),
    (0x1795, 0x1798), (0x179b, 0x179d), (0x17a0, 0x17a0), (0x17a2, 0x17a2), (0x17a7, 0x17a7),
    (0x17ab, 0x17ac), (0x17af, 0x17af)] char

/-- Tifinagh consonants. -/
def isConsonant (char : Char) : Bool := CodePoints.has [(0x2d31, 0x2d65), (0x2d6f, 0x2d6f)] char

/-- The ligature that a character may be the last part of. -/
def ofChar? (char : Char) : Option Ending :=
  if isAlef char then some .alef
  else if char = '\u05dc' then some (.lamed false)
  else if char = '\u1a10' then some (.ya false)
  else if isConsonant char then some (.consonant false)
  else if '\ua4fc' ≤ char && char ≤ '\ua4fd' then some .tone
  else if char.toNat = 0x10c03 then some (.orkhonI false)
  else if hasSubscript char then some .subscript
  else none

/-- The same part with a joiner before it. -/
def join : Ending → Ending
  | lamed _ => lamed true
  | ya _ => ya true
  | consonant _ => consonant true
  | orkhonI _ => orkhonI true
  | part => part

/-- Columns of the part of the ligature right before this one, and the last part
from there if that is not the whole ligature. A part that takes back a column is
drawn into what follows. -/
def partBefore? (char : Char) : Ending → Option (Int × Option Ending)
  | alef => if isLam char then some (0, none) else none
  | lamed joined => if joined && char = '\u05d0' then some (0, none) else none
  | ya joined => if joined && char = '\u1a17' then some (0, some vowelYa) else none
  | vowelYa => if char = '\u1a15' then some (0, none) else none
  | consonant joined =>
    if char = '\u2d7f' then some (1, some linkedConsonant)
    else if joined && isConsonant char then some (0, none)
    else none
  | linkedConsonant => if isConsonant char then some (-1, none) else none
  | tone => if '\ua4f8' ≤ char && char ≤ '\ua4fb' then some (0, none) else none
  | orkhonI joined => if joined && char.toNat = 0x10c32 then some (0, none) else none
  | subscript => if char = '\u17d2' then some (-1, none) else none

/-- Whether a character may stand between the parts of a ligature. In Arabic
these are all marks that letters join across. -/
def allowsBetween (char : Char) : Ending → Bool
  | alef => isTransparent char
  | _ => char = joiner || ignorableMarks.has char

/-- Columns of a character that belongs to the ligature, and the last part from
there if that is not the whole ligature. -/
def before? (char : Char) (part : Ending) : Option (Int × Option Ending) :=
  match part.partBefore? char with
  | some found => some found
  | none =>
    if part.allowsBetween char then some (0, some (if char = joiner then part.join else part))
    else none

end Ending

end QueryPlan.Text
