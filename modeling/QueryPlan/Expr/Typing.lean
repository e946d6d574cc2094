import QueryPlan.Error

/-!
# Checking expressions

`Expr.check` checks an expression against the schema of the rows that it
reads: the number of arguments of a call first, then the arguments from left to
right, then their types.
-/

namespace QueryPlan

namespace ScalarOp

/-- Whether a call may have arguments of these types. -/
def accepts : ScalarOp → ScalarType → ScalarType → Bool
  | equals, left, right => left == right
  | and, left, right => left == .boolean && right == .boolean

end ScalarOp

namespace Expr

/-- Accepts exactly the expressions that are well typed over `schema`. -/
def check (schema : Schema) : Expr → Except Malformed Unit
  | .column index type =>
    match schema.field? index with
    | none => .error (.columnOutOfRange index schema.width)
    | some field =>
      if field.type = type then .ok () else .error (.columnType index type field)
  | .literal _ => .ok ()
  | .call op [left, right] => do
    left.check schema
    right.check schema
    if op.accepts left.type right.type then .ok ()
    else .error (.argumentTypes op left.type right.type)
  | .call op args => .error (.argumentCount op args.length)

/-- Accepts well-typed expressions of type Boolean. -/
def checkCondition (schema : Schema) (notBoolean : Expr → Malformed) (condition : Expr) :
    Except Malformed Unit := do
  condition.check schema
  if condition.type = .boolean then .ok () else .error (notBoolean condition)

end Expr

end QueryPlan
