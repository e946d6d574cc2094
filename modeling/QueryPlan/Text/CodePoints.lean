/-!
# Sets of code points

A property of characters is given by the closed ranges of the code points that
have it. The property tables of the sibling modules all have this form. Those
that decide the width of a text hold the properties of Unicode 15.1.
-/

namespace QueryPlan.Text

/-- Closed ranges of code points, ascending and apart. -/
abbrev CodePoints := List (Nat × Nat)

/-- Whether a character lies in one of the ranges. -/
def CodePoints.has (set : CodePoints) (char : Char) : Bool :=
  set.any fun (first, last) => first ≤ char.toNat && char.toNat ≤ last

end QueryPlan.Text
