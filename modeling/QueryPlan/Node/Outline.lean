import QueryPlan.Node.Traversal
import QueryPlan.Text.Table

/-!
# Showing plans

A plan is written as an indented outline of its tree, in which a shared node
stands once for every path that leads to it, or as a table with one row per
node.
-/

namespace QueryPlan.PlanNode

/-- One line of the outline: two blanks per level of depth. -/
def outlineLine (depth : Nat) (text : String) : String :=
  String.ofList (List.replicate (depth * 2) ' ') ++ text

mutual
/-- The lines of the outline of a plan whose root stands at `depth`. -/
def outline (depth : Nat) : PlanNode → List String
  | ⟨_, _, operator, inputs, _⟩ =>
    outlineLine depth operator.text :: outlineAll (depth + 1) inputs

/-- The lines of the outlines of several plans at one depth. -/
def outlineAll (depth : Nat) : List PlanNode → List String
  | [] => []
  | node :: rest => outline depth node ++ outlineAll depth rest
end

@[simp] theorem outlineAll_eq_flatMap (depth : Nat) (nodes : List PlanNode) :
    outlineAll depth nodes = nodes.flatMap (outline depth) := by
  induction nodes with
  | nil => rfl
  | cons node rest ih => simp [outlineAll, ih]

/-- The outline of a plan, each line ended by a line feed. -/
def text (plan : PlanNode) : String := String.join ((plan.outline 0).map (· ++ "\n"))

/-- The table of a plan: one row per node in breadth-first order. -/
def table (plan : PlanNode) : Except Violation String :=
  let rows := plan.breadthFirst.map fun node =>
    [toString node.id, node.operator.text, node.schema.text]
  (Text.Table.render ["id", "operator", "fields"] rows).mapError .overdrawn

end QueryPlan.PlanNode
