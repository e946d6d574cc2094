import QueryPlan.Node.Basic
import QueryPlan.Rule.Pattern

/-!
# Bindings

A pattern that matches at a node binds one node per operand, in pre-order, so
that the node itself comes first.
-/

namespace QueryPlan

namespace Pattern

mutual
/-- The nodes bound to the operands of a pattern at a node, if it matches. -/
def match? : Pattern → PlanNode → Option (List PlanNode)
  | any accepts, node => if accepts node.operator then some [node] else none
  | leaf accepts, node =>
    if accepts node.operator ∧ node.inputs = [] then some [node] else none
  | withInputs accepts inputs, node =>
    if accepts node.operator then (matchAll? inputs node.inputs).map (node :: ·) else none

/-- The nodes bound by as many patterns as there are nodes, one each. -/
def matchAll? : List Pattern → List PlanNode → Option (List PlanNode)
  | [], [] => some []
  | pattern :: patterns, node :: nodes =>
    match pattern.match? node, matchAll? patterns nodes with
    | some first, some others => some (first ++ others)
    | _, _ => none
  | _, _ => none
end

end Pattern

/-- The nodes bound by a match: the root and the nodes of the other operands. -/
structure Binding where
  root : PlanNode
  others : List PlanNode

namespace Binding

/-- All bound nodes, in pre-order of the operands. -/
def nodes (binding : Binding) : List PlanNode := binding.root :: binding.others

/-- Binds a pattern at a node. -/
def bind? (pattern : Pattern) (node : PlanNode) : Option Binding :=
  (pattern.match? node).map fun nodes => ⟨node, nodes.tail⟩

end Binding

end QueryPlan
