import QueryPlan.Operator.Basic

/-!
# Patterns

A pattern is a tree of operands. Each operand tests the operator of one node
and says what is asked of the inputs of that node.
-/

namespace QueryPlan

/-- A structural pattern over plans. -/
inductive Pattern where
  /-- A node with any inputs. -/
  | any (accepts : Operator → Bool)
  /-- A node without inputs. -/
  | leaf (accepts : Operator → Bool)
  /-- A node with one input per pattern, matched by position. -/
  | withInputs (accepts : Operator → Bool) (inputs : List Pattern)

namespace Pattern

/-- Whether the root operand accepts an operator. -/
def accepts : Pattern → Operator → Bool
  | any accepts => accepts
  | leaf accepts => accepts
  | withInputs accepts _ => accepts

mutual
/-- Number of operands, which is the number of nodes that a match binds. -/
def size : Pattern → Nat
  | any _ => 1
  | leaf _ => 1
  | withInputs _ inputs => 1 + sizeAll inputs

/-- Number of operands of several patterns. -/
def sizeAll : List Pattern → Nat
  | [] => 0
  | pattern :: rest => pattern.size + sizeAll rest
end

mutual
/-- The shape of a pattern; its tests cannot be shown. -/
def text : Pattern → String
  | any _ => "Pattern \x7b children: Any, .. \x7d"
  | leaf _ => "Pattern \x7b children: Leaf, .. \x7d"
  | withInputs _ inputs =>
    "Pattern \x7b children: Inputs([" ++ String.intercalate ", " (textAll inputs) ++ "]), .. \x7d"

/-- The shapes of several patterns. -/
def textAll : List Pattern → List String
  | [] => []
  | pattern :: rest => pattern.text :: textAll rest
end

end Pattern

end QueryPlan
