import QueryPlan.Float64
import QueryPlan.Schema

/-!
# Scalar expressions

Columns by position, literals, and calls of the two operators `=` and `AND`.
An expression only has a meaning against the schema that it was built for; a
call may hold any number of arguments until it is checked.

Expressions are equal when they are built alike and their float literals are
equal as values.
-/

namespace QueryPlan

/-- A literal value. -/
inductive Literal where
  | boolean (value : Bool)
  | int64 (value : Int64)
  | float64 (value : Float64)
  | utf8 (value : String)

namespace Literal

def type : Literal → ScalarType
  | boolean _ => .boolean
  | int64 _ => .int64
  | float64 _ => .float64
  | utf8 _ => .utf8

/-- Text stands between single quotes as it is, without escapes. -/
def text : Literal → String
  | boolean value => if value then "true" else "false"
  | int64 value => toString value.toInt
  | float64 value => value.text
  | utf8 value => "'" ++ value ++ "'"

/-- Equality of values of one type; values of different types differ. -/
def beq : Literal → Literal → Bool
  | boolean left, boolean right => left == right
  | int64 left, int64 right => left == right
  | float64 left, float64 right => left == right
  | utf8 left, utf8 right => left == right
  | _, _ => false

instance : BEq Literal := ⟨beq⟩

end Literal

/-- The operators of scalar calls. -/
inductive ScalarOp where
  | equals
  | and
  deriving DecidableEq, Repr

namespace ScalarOp

/-- How an operator stands between its arguments. -/
def symbol : ScalarOp → String
  | equals => "="
  | and => "AND"

/-- Type of a call, whatever its arguments. -/
def resultType : ScalarOp → ScalarType
  | equals => .boolean
  | and => .boolean

end ScalarOp

/-- A scalar expression. -/
inductive Expr where
  /-- The column at a position, with the type it is expected to have. -/
  | column (index : Nat) (type : ScalarType)
  | literal (value : Literal)
  | call (op : ScalarOp) (args : List Expr)

namespace Expr

/-- Induction over expressions, with the hypothesis for every argument. -/
theorem induct {motive : Expr → Prop}
    (column : ∀ index type, motive (.column index type))
    (literal : ∀ value, motive (.literal value))
    (call : ∀ op args, (∀ arg ∈ args, motive arg) → motive (.call op args)) :
    ∀ expr, motive expr :=
  @Expr.rec motive (fun args => ∀ arg ∈ args, motive arg) column literal call
    (fun _ member => nomatch member)
    (fun head tail forHead forTail arg member => by
      cases member with
      | head => exact forHead
      | tail _ member => exact forTail arg member)

/-- The type that an expression is declared to have. -/
def type : Expr → ScalarType
  | column _ type => type
  | literal value => value.type
  | call op _ => op.resultType

mutual
/-- Same construction, with equal literals. -/
def beq : Expr → Expr → Bool
  | column left leftType, column right rightType => left == right && leftType == rightType
  | literal left, literal right => left == right
  | call left leftArgs, call right rightArgs => left == right && beqAll leftArgs rightArgs
  | _, _ => false

/-- Equality of argument lists. -/
def beqAll : List Expr → List Expr → Bool
  | [], [] => true
  | left :: lefts, right :: rights => beq left right && beqAll lefts rights
  | _, _ => false
end

instance : BEq Expr := ⟨beq⟩

/-- The text of a call: its arguments with the operator between them. -/
def callText (op : ScalarOp) (args : List String) : String :=
  "(" ++ String.intercalate (" " ++ op.symbol ++ " ") args ++ ")"

mutual
/-- Columns are written `$index`, calls in parentheses. -/
def text : Expr → String
  | column index _ => "$" ++ toString index
  | literal value => value.text
  | call op args => callText op (textAll args)

/-- The texts of the arguments of a call. -/
def textAll : List Expr → List String
  | [] => []
  | arg :: args => arg.text :: textAll args
end

@[simp] theorem textAll_eq_map (args : List Expr) : textAll args = args.map text := by
  induction args with
  | nil => rfl
  | cons arg args ih => simp [textAll, ih]

/-- A call of two arguments. -/
def binary (op : ScalarOp) (left right : Expr) : Expr := .call op [left, right]

/-- `left = right` -/
def equal (left right : Expr) : Expr := binary .equals left right

/-- `left AND right` -/
def and (left right : Expr) : Expr := binary .and left right

/-- The left-associative `AND` of a list, which the empty list does not have. -/
def conjunction : List Expr → Option Expr
  | [] => none
  | first :: rest => some (rest.foldl and first)

/-- What `AND` has exactly when both of its sides have it, a conjunction has exactly
when all of its members have it. -/
theorem foldl_and_iff (property : Expr → Prop)
    (splits : ∀ left right, property (left.and right) ↔ property left ∧ property right)
    (first : Expr) (rest : List Expr) :
    property (rest.foldl and first) ↔ ∀ expr ∈ first :: rest, property expr := by
  induction rest generalizing first with
  | nil => simp
  | cons second rest ih =>
      rw [List.foldl_cons, ih]
      simp only [List.forall_mem_cons, splits, and_assoc]

end Expr

end QueryPlan
