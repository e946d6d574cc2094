/-!
# Shortest decimals

A binary number stands for every real that rounds to it. Among the decimals in
that range this module picks the ones with the fewest digits, and of those the
nearest to the number itself; of two equally near ones it takes the larger.

All numbers are quotients of naturals over one denominator, so that the search
is exact.
-/

namespace QueryPlan

/-- The decimal `digits * 10 ^ exponent`. -/
structure Decimal where
  digits : Nat
  exponent : Int
  deriving DecidableEq, Repr

namespace Decimal

/-- A positive number `value / unit` with the range of reals that stand for it,
from `low / unit` to `high / unit`. -/
structure Range where
  low : Nat
  value : Nat
  high : Nat
  unit : Nat
  /-- Whether the two ends belong to the range. -/
  closed : Bool
  deriving Repr

/-- Number of decimal digits. -/
def digitCount (number : Nat) : Nat := (Nat.toDigits 10 number).length

namespace Range

/-- The number `magnitude` with `10 ^ (magnitude - 1) ≤ value / unit < 10 ^ magnitude`. -/
def magnitude (range : Range) : Int :=
  if range.unit ≤ range.value then
    digitCount (range.value / range.unit)
  else
    1 - digitCount ((range.unit - 1) / range.value)

/-- The same range measured in steps of `10 ^ exponent`. -/
def inSteps (range : Range) (exponent : Int) : Range :=
  let grow := Nat.pow 10 (-exponent).toNat
  { range with
    low := range.low * grow
    value := range.value * grow
    high := range.high * grow
    unit := range.unit * Nat.pow 10 exponent.toNat }

/-- Whether the whole number of steps `count` lies in the range. -/
def contains (range : Range) (count : Nat) : Bool :=
  let place := count * range.unit
  if range.closed then
    range.low ≤ place && place ≤ range.high
  else
    range.low < place && place < range.high

/-- The nearest of the two neighbours of the number on the grid of whole steps,
if one of them lies in the range. -/
def nearest? (range : Range) : Option Nat :=
  let below := range.value / range.unit
  let above := below + 1
  match range.contains below, range.contains above with
  | true, true =>
    if above * range.unit - range.value ≤ range.value - below * range.unit then some above
    else some below
  | true, false => some below
  | false, true => some above
  | false, false => none

/-- The nearest decimal with at most `count` digits, if it lies in the range. -/
def withDigits? (range : Range) (count : Nat) : Option Decimal :=
  let exponent := range.magnitude - count
  ((range.inSteps exponent).nearest?).map (⟨·, exponent⟩)

/-- The shortest decimal of the range, sought up to `limit` digits. When the
range holds no decimal that short, the number is cut off at `limit` digits. -/
def shortest (range : Range) (limit : Nat) : Decimal :=
  match (List.range limit).findSome? fun index => range.withDigits? (index + 1) with
  | some decimal => decimal
  | none =>
    let exponent := range.magnitude - limit
    let steps := range.inSteps exponent
    ⟨steps.value / steps.unit, exponent⟩

end Range

/-- How decimals are written: which decimal exponents stand without an
exponent mark, and the mark itself. -/
structure Style where
  /-- Least exponent of the leading digit that is written positionally. -/
  leastPositional : Int
  /-- Greatest exponent of the leading digit that is written positionally. -/
  greatestPositional : Int
  /-- What stands between the digits and the exponent. -/
  exponentMark : String
  /-- Fraction of a whole number in positional form. -/
  wholeFraction : String
  deriving Repr

/-- Digits without the zeros at the end. -/
def significant (number : Nat) : List Char :=
  ((Nat.toDigits 10 number).reverse.dropWhile (· == '0')).reverse

/-- Writes digits with the point after the first `point` of them; `point` may
lie outside the digits. -/
def positional (style : Style) (digits : List Char) (point : Int) : String :=
  if point ≤ 0 then
    "0." ++ String.ofList (List.replicate (-point).toNat '0' ++ digits)
  else if digits.length ≤ point.toNat then
    String.ofList (digits ++ List.replicate (point.toNat - digits.length) '0') ++ style.wholeFraction
  else
    String.ofList (digits.take point.toNat) ++ "." ++ String.ofList (digits.drop point.toNat)

/-- Writes digits as one digit, a fraction unless it is empty, and an exponent. -/
def scientific (style : Style) (digits : List Char) (exponent : Int) : String :=
  let fraction := digits.drop 1
  String.ofList (digits.take 1) ++
    (if fraction.isEmpty then "" else "." ++ String.ofList fraction) ++
    style.exponentMark ++ toString exponent

/-- Writes a decimal. The form depends on `magnitude`, the place of the leading
digit of the number that the decimal stands for. -/
def text (style : Style) (decimal : Decimal) (magnitude : Int) : String :=
  let digits := significant decimal.digits
  let point := decimal.exponent + digitCount decimal.digits
  if style.leastPositional < magnitude && magnitude ≤ style.greatestPositional + 1 then
    positional style digits point
  else
    scientific style digits (point - 1)

end Decimal

end QueryPlan
