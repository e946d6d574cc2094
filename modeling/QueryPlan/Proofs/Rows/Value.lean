import QueryPlan.Proofs.Equality.Canonical

/-!
# Values and rows

A row is a list of values. A value is a literal or null, and null is an ordinary
value that is equal to itself. `Expr.value` evaluates an expression on a row.
-/

namespace QueryPlan

/-- A value of a row. -/
inductive Value where
  | null
  | literal (value : Literal)

namespace Value

/-- Equality of values; null equals null only. -/
def beq : Value → Value → Bool
  | null, null => true
  | literal left, literal right => left == right
  | _, _ => false

instance : BEq Value := ⟨beq⟩

/-- The value with the canonical literal. -/
def canonical : Value → Value
  | null => .null
  | literal value => .literal value.canonical

theorem beq_iff (left right : Value) :
    (left == right) = true ↔ left.canonical = right.canonical := by
  change left.beq right = true ↔ left.canonical = right.canonical
  cases left <;> cases right <;> simp [beq, canonical, Literal.beq_iff]

instance : EquivBEq Value := equivBEq_of_image canonical beq_iff

/-- A truth value. -/
def boolean (truth : Bool) : Value := .literal (.boolean truth)

/-- Whether a value is the truth value true. -/
def isTrue (value : Value) : Bool := value == boolean true

@[simp] theorem isTrue_boolean (truth : Bool) : (boolean truth).isTrue = truth := by
  cases truth <;> rfl

theorem isTrue_iff {value : Value} : value.isTrue = true ↔ value = boolean true := by
  constructor
  · intro isTrue
    match value, isTrue with
    | .literal (.boolean true), _ => rfl
  · rintro rfl
    rfl

end Value

/-- The values of the fields of a row, in order. -/
abbrev Row := List Value

namespace Row

instance : EquivBEq Row := equivBEq_of_image (List.map Value.canonical)
  (list_beq_iff_map Value.beq_iff)

/-- The value at a position. A position beyond the row holds null; no plan that
passes its checks asks for one. -/
def column (row : Row) (index : Nat) : Value := row[index]?.getD .null

/-- The values at several positions. -/
def columns (row : Row) (indices : List Nat) : Row := indices.map row.column

theorem column_append_left {left : Row} (right : Row) {index : Nat}
    (bound : index < left.length) : column (left ++ right) index = left.column index := by
  simp [column, List.getElem?_append_left bound]

theorem column_append_right (left right : Row) (index : Nat) :
    column (left ++ right) (left.length + index) = right.column index := by
  simp [column, List.getElem?_append_right]

/-- The first columns of a row are its values in order. -/
theorem columns_range {row : Row} {count : Nat} (wide : count ≤ row.length) :
    row.columns (List.range count) = row.take count := by
  apply List.ext_getElem
  · simp [columns, Nat.min_eq_left wide]
  · intro index left right
    have bound : index < row.length := by
      simp only [List.length_take] at right
      omega
    simp [columns, column, List.getElem?_eq_getElem bound]

end Row

namespace ScalarOp

/-- The result of a call: equality of values, or whether both are true. -/
def apply : ScalarOp → Value → Value → Value
  | equals, left, right => .boolean (left == right)
  | and, left, right => .boolean (left.isTrue && right.isTrue)

end ScalarOp

namespace Expr

/-- The value of an expression on a row. A call without exactly two arguments
has none and gives null; no expression that passes its check holds one. -/
def value (row : Row) : Expr → Value
  | .column index _ => row.column index
  | .literal value => .literal value
  | .call op [left, right] => op.apply (left.value row) (right.value row)
  | .call .. => .null

/-- Whether a condition holds on a row. -/
def holds (condition : Expr) (row : Row) : Bool := (condition.value row).isTrue

@[simp] theorem value_column (row : Row) (index : Nat) (type : ScalarType) :
    (Expr.column index type).value row = row.column index := by
  simp [value]

@[simp] theorem value_equal (row : Row) (left right : Expr) :
    (left.equal right).value row = .boolean (left.value row == right.value row) := by
  simp [equal, binary, value, ScalarOp.apply]

@[simp] theorem holds_and (row : Row) (left right : Expr) :
    (left.and right).holds row = (left.holds row && right.holds row) := by
  simp [holds, Expr.and, binary, value, ScalarOp.apply]

/-- The conjunction of a list, or true for the empty list, holds where all
members of the list do. -/
theorem holds_conjunction (row : Row) (conditions : List Expr) :
    ((conjunction conditions).getD (.literal (.boolean true))).holds row =
      conditions.all (·.holds row) := by
  cases conditions with
  | nil => simp [conjunction, holds, value, Value.isTrue, Value.boolean]
  | cons first rest =>
      rw [conjunction, Option.getD_some, Bool.eq_iff_iff, List.all_eq_true]
      apply foldl_and_iff (·.holds row = true)
      intro left right
      rw [holds_and, Bool.and_eq_true]

end Expr

end QueryPlan
