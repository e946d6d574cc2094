import QueryPlan.Decimal.Shortest

/-!
# Floating-point values

A `Float64` is the bit pattern of an IEEE 754 binary64 number. Two values are
equal when they have the same canonical pattern: every NaN is equal to every
other, and the two zeros are equal (`Float64.beq_iff`).
-/

namespace QueryPlan

/-- A binary64 number, given by its bits. -/
structure Float64 where
  bits : UInt64
  deriving Repr

namespace Float64

/-- Whether the sign bit is set. -/
def isNegative (value : Float64) : Bool := Nat.pow 2 63 ≤ value.bits.toNat

/-- The eleven bits of the biased exponent. -/
def exponentBits (value : Float64) : Nat := value.bits.toNat / Nat.pow 2 52 % Nat.pow 2 11

/-- The fifty-two bits of the fraction. -/
def fractionBits (value : Float64) : Nat := value.bits.toNat % Nat.pow 2 52

def isNaN (value : Float64) : Bool := value.exponentBits == 2047 && value.fractionBits != 0

def isInfinite (value : Float64) : Bool := value.exponentBits == 2047 && value.fractionBits == 0

def isZero (value : Float64) : Bool := value.exponentBits == 0 && value.fractionBits == 0

/-- One bit pattern for all values that are equal: one for NaN, one for zero,
and every other value for itself. -/
def canonical (value : Float64) : Float64 :=
  if value.isNaN then ⟨0x7ff8000000000000⟩
  else if value.isZero then ⟨0⟩
  else value

/-- Values are equal when their canonical patterns are. -/
instance : BEq Float64 := ⟨fun left right => left.canonical.bits == right.canonical.bits⟩

theorem beq_iff {left right : Float64} :
    (left == right) = true ↔ left.canonical = right.canonical := by
  cases hl : left.canonical
  cases hr : right.canonical
  simp [BEq.beq, hl, hr]

/-- The whole significand `m` of a finite value `m * 2 ^ binaryExponent`. -/
def significand (value : Float64) : Nat :=
  if value.exponentBits = 0 then value.fractionBits else Nat.pow 2 52 + value.fractionBits

/-- The exponent of the last place of a finite value. -/
def binaryExponent (value : Float64) : Int := (max value.exponentBits 1 : Nat) - 1075

/-- The reals that round to the absolute value of a finite value other than
zero. The ends lie half-way to the neighbours, which below a power of two are
twice as close; they round to the value when its significand is even. -/
def range (value : Float64) : Decimal.Range :=
  let grow := Nat.pow 2 value.binaryExponent.toNat
  let quarter := value.significand * 4
  let gap := if value.fractionBits = 0 ∧ 1 < value.exponentBits then 1 else 2
  { low := (quarter - gap) * grow
    value := quarter * grow
    high := (quarter + 2) * grow
    unit := 4 * Nat.pow 2 (-value.binaryExponent).toNat
    closed := value.significand % 2 == 0 }

/-- Floats are written positionally from 0.0001 up to but excluding 10^16, then
always with a fraction, and with an exponent otherwise. -/
def style : Decimal.Style where
  leastPositional := -4
  greatestPositional := 15
  exponentMark := "e"
  wholeFraction := ".0"

/-- Seventeen digits are enough to tell any two values apart. -/
def digitLimit : Nat := 17

/-- The shortest text that reads back as the value. -/
def text (value : Float64) : String :=
  if value.isNaN then "NaN"
  else
    let sign := if value.isNegative then "-" else ""
    if value.isInfinite then sign ++ "inf"
    else if value.isZero then sign ++ "0" ++ style.wholeFraction
    else
      let range := value.range
      sign ++ (range.shortest digitLimit).text style range.magnitude

end Float64

end QueryPlan
