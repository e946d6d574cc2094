import QueryPlan.Operator.Basic

/-!
# Equality by canonical form

Float literals are equal when their canonical bit patterns are, and expressions
and operators are equal when they are built alike from equal literals. Replacing
every literal by its canonical one turns this Boolean equality into identity,
which makes it an equivalence at every level.
-/

namespace QueryPlan

/-- A Boolean equality that compares images is an equivalence. -/
theorem equivBEq_of_image {α β : Type} [BEq α] (image : α → β)
    (beq_iff : ∀ left right : α, (left == right) = true ↔ image left = image right) :
    EquivBEq α where
  rfl := (beq_iff _ _).mpr rfl
  symm := fun equal => (beq_iff _ _).mpr ((beq_iff _ _).mp equal).symm
  trans := fun first second =>
    (beq_iff _ _).mpr (((beq_iff _ _).mp first).trans ((beq_iff _ _).mp second))

/-- Lists are equal when their members have the same images. -/
theorem list_beq_iff_map {α β : Type} [BEq α] {image : α → β}
    (beq_iff : ∀ left right : α, (left == right) = true ↔ image left = image right)
    (lefts rights : List α) :
    (lefts == rights) = true ↔ lefts.map image = rights.map image := by
  induction lefts generalizing rights with
  | nil => cases rights <;> simp
  | cons left lefts ih =>
      cases rights with
      | nil => simp
      | cons right rights => simp [beq_iff, ih]

namespace Literal

/-- The literal with the canonical bits of its value. -/
def canonical : Literal → Literal
  | float64 value => .float64 value.canonical
  | literal => literal

@[simp] theorem type_canonical (literal : Literal) : literal.canonical.type = literal.type := by
  cases literal <;> rfl

theorem beq_iff (left right : Literal) :
    (left == right) = true ↔ left.canonical = right.canonical := by
  change left.beq right = true ↔ left.canonical = right.canonical
  cases left with
  | float64 value =>
      cases right with
      | float64 other => simp [beq, canonical, Float64.beq_iff]
      | boolean _ | int64 _ | utf8 _ => simp [beq, canonical]
  | boolean value | int64 value | utf8 value =>
      cases right <;> simp [beq, canonical]

instance : EquivBEq Literal := equivBEq_of_image canonical beq_iff

end Literal

namespace Expr

mutual
/-- The expression with canonical literals. -/
def canonical : Expr → Expr
  | column index type => .column index type
  | literal value => .literal value.canonical
  | call op args => .call op (canonicalAll args)

/-- The expressions with canonical literals. -/
def canonicalAll : List Expr → List Expr
  | [] => []
  | arg :: args => arg.canonical :: canonicalAll args
end

@[simp] theorem canonicalAll_eq_map (args : List Expr) :
    canonicalAll args = args.map canonical := by
  induction args with
  | nil => rfl
  | cons arg args ih => simp [canonicalAll, ih]

@[simp] theorem type_canonical (expr : Expr) : expr.canonical.type = expr.type := by
  cases expr with
  | column index type => simp only [canonical]
  | literal value => simp only [canonical, type, Literal.type_canonical]
  | call op args => simp only [canonical, type]

/-- Argument lists are compared by their canonical members, once this is known
of the members themselves. -/
theorem beqAll_iff_of_members {lefts : List Expr}
    (members : ∀ left ∈ lefts, ∀ right : Expr,
      left.beq right = true ↔ left.canonical = right.canonical) (rights : List Expr) :
    beqAll lefts rights = true ↔ lefts.map canonical = rights.map canonical := by
  induction lefts generalizing rights with
  | nil => cases rights <;> simp [beqAll]
  | cons left lefts ih =>
      cases rights with
      | nil => simp [beqAll]
      | cons right rights =>
          have headIff := members left List.mem_cons_self right
          have tailIff := ih (fun member membership =>
            members member (List.mem_cons_of_mem _ membership)) rights
          simp only [beqAll, Bool.and_eq_true, List.map_cons, List.cons.injEq, headIff, tailIff]

theorem beq_iff (left right : Expr) :
    (left == right) = true ↔ left.canonical = right.canonical := by
  change left.beq right = true ↔ left.canonical = right.canonical
  induction left using Expr.induct generalizing right with
  | column index type => cases right <;> simp [beq, canonical]
  | literal value => cases right <;> simp [beq, canonical, Literal.beq_iff]
  | call op args ih =>
      cases right with
      | column _ _ => simp [beq, canonical]
      | literal _ => simp [beq, canonical]
      | call other others =>
          simp only [beq, Bool.and_eq_true, beq_iff_eq, beqAll_iff_of_members ih, canonical, canonicalAll_eq_map,
            call.injEq]

instance : EquivBEq Expr := equivBEq_of_image canonical beq_iff

end Expr

namespace Operator

/-- The operator with canonical literals. -/
def canonical : Operator → Operator
  | projection exprs names => .projection (exprs.map Expr.canonical) names
  | join kind condition => .join kind condition.canonical
  | filter predicate => .filter predicate.canonical
  | operator => operator

theorem beq_iff (left right : Operator) :
    (left == right) = true ↔ left.canonical = right.canonical := by
  change left.beq right = true ↔ left.canonical = right.canonical
  cases left with
  | projection exprs names =>
      cases right with
      | projection others otherNames =>
          simp [beq, canonical, list_beq_iff_map Expr.beq_iff]
      | aggregate | join | tableScan | filter | limit => simp [beq, canonical]
  | aggregate | join | tableScan | filter | limit =>
      cases right <;> simp [beq, canonical, Expr.beq_iff]

instance : EquivBEq Operator := equivBEq_of_image canonical beq_iff

end Operator

end QueryPlan
