import QueryPlan.Expr.Basic

/-!
# Relational operators

An operator carries its own arguments only; its inputs belong to the node that
holds it. The display text of an operator shows all of these arguments, except
the fields of a table scan.
-/

namespace QueryPlan

/-- The functions that aggregate a group of rows. -/
inductive AggregateFunction where
  | count
  | sum
  | min
  | max
  | avg
  deriving DecidableEq, Repr

namespace AggregateFunction

/-- The written name of a function. -/
def name : AggregateFunction → String
  | count => "COUNT"
  | sum => "SUM"
  | min => "MIN"
  | max => "MAX"
  | avg => "AVG"

/-- Every function. -/
def all : List AggregateFunction := [count, sum, min, max, avg]

/-- The function with exactly this name; case matters. -/
def ofName (text : String) : Except UnknownName AggregateFunction :=
  match all.find? (·.name == text) with
  | some function => .ok function
  | none => .error ⟨text⟩

@[simp] theorem ofName_name (function : AggregateFunction) :
    ofName function.name = .ok function := by
  cases function <;> rfl

end AggregateFunction

/-- One aggregation: a function of the columns at the positions `args`. -/
structure AggregateCall where
  function : AggregateFunction
  /-- Whether the function sees each tuple of arguments only once. -/
  distinct : Bool
  args : List Nat
  resultType : ScalarType
  deriving DecidableEq, Repr

namespace AggregateCall

/-- The same function and result type over other arguments. -/
def setArgs (call : AggregateCall) (distinct : Bool) (args : List Nat) : AggregateCall :=
  { call with distinct, args }

/-- A call without arguments counts rows and is written with a star. -/
def text (call : AggregateCall) : String :=
  if call.args.isEmpty then
    call.function.name ++ "(*)"
  else
    call.function.name ++ "(" ++ (if call.distinct then "DISTINCT " else "") ++
      String.intercalate ", " (call.args.map fun arg => "$" ++ toString arg) ++ ")"

end AggregateCall

/-- Grouping by the first `groupCount` columns, with one result per call. -/
structure Aggregate where
  groupCount : Nat
  calls : List AggregateCall
  deriving DecidableEq, Repr

namespace Aggregate

def hasDistinctCall (aggregate : Aggregate) : Bool := aggregate.calls.any (·.distinct)

def text (aggregate : Aggregate) : String :=
  "Aggregate(group_count=" ++ toString aggregate.groupCount ++ ", calls=[" ++
    String.intercalate ", " (aggregate.calls.map AggregateCall.text) ++ "])"

end Aggregate

/-- Which unmatched rows a join keeps. -/
inductive JoinKind where
  | inner
  | left
  | right
  | full
  deriving DecidableEq, Repr

namespace JoinKind

def name : JoinKind → String
  | inner => "Inner"
  | left => "Left"
  | right => "Right"
  | full => "Full"

/-- Every kind of join. -/
def all : List JoinKind := [inner, left, right, full]

/-- The kind of join with exactly this name. -/
def ofName? (text : String) : Option JoinKind := all.find? (·.name == text)

end JoinKind

/-- A relational operator. -/
inductive Operator where
  | aggregate (grouping : Aggregate)
  | projection (exprs : List Expr) (names : List String)
  | join (kind : JoinKind) (condition : Expr)
  | tableScan (table : String) (fields : Schema)
  | filter (predicate : Expr)
  | limit (count : Nat)

namespace Operator

/-- Number of inputs that a node with this operator has. -/
def arity : Operator → Nat
  | tableScan .. => 0
  | join .. => 2
  | _ => 1

def aggregate? : Operator → Option Aggregate
  | aggregate grouping => some grouping
  | _ => none

/-- Whether the operator aggregates with a distinct call. -/
def hasDistinctCall (operator : Operator) : Bool :=
  operator.aggregate?.any (·.hasDistinctCall)

/-- Same operator with equal arguments; the fields of a table scan count. -/
def beq : Operator → Operator → Bool
  | aggregate left, aggregate right => left == right
  | projection left leftNames, projection right rightNames =>
    left == right && leftNames == rightNames
  | join leftType leftCondition, join rightType rightCondition =>
    leftType == rightType && leftCondition == rightCondition
  | tableScan left leftFields, tableScan right rightFields =>
    left == right && leftFields == rightFields
  | filter left, filter right => left == right
  | limit left, limit right => left == right
  | _, _ => false

instance : BEq Operator := ⟨beq⟩

def text : Operator → String
  | aggregate grouping => grouping.text
  | projection exprs names =>
    "Projection(exprs=[" ++ String.intercalate ", " (exprs.map Expr.text) ++ "], names=[" ++
      String.intercalate ", " names ++ "])"
  | join kind condition =>
    "Join(type=" ++ kind.name ++ ", condition=" ++ condition.text ++ ")"
  | tableScan table _ => "TableScan(" ++ table ++ ")"
  | filter predicate => "Filter(" ++ predicate.text ++ ")"
  | limit count => "Limit(" ++ toString count ++ ")"

end Operator

end QueryPlan
