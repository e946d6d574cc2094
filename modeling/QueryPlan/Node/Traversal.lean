import QueryPlan.Node.Basic

/-!
# Breadth-first order

`PlanNode.breadthFirst` lists every node of a plan once, level by level and from
left to right within a level. A node is listed at the first level at which some
parent reads it. `PlanNode.numbered` adds to each node the places of its inputs
in this list, which shows the sharing of a plan without its keys.
-/

namespace QueryPlan.PlanNode

/-- The nodes whose key is not in `seen`, the first of each key. -/
def unseen (seen : List Nat) : List PlanNode → List PlanNode
  | [] => []
  | node :: rest =>
    if node.key ∈ seen then unseen seen rest else node :: unseen (node.key :: seen) rest

theorem unseen_sublist (seen : List Nat) (nodes : List PlanNode) :
    (unseen seen nodes).Sublist nodes := by
  induction nodes generalizing seen with
  | nil => exact .slnil
  | cons node rest ih =>
    rw [unseen]
    split
    · exact .cons _ (ih seen)
    · exact .cons_cons _ (ih _)

theorem treeSizeAll_le_of_sublist {left right : List PlanNode} (sublist : left.Sublist right) :
    treeSizeAll left ≤ treeSizeAll right := by
  induction sublist with
  | slnil => exact Nat.le_refl _
  | cons node _ ih => simp only [treeSizeAll]; omega
  | cons_cons node _ ih => simp only [treeSizeAll]; omega

/-- The inputs of `level` that are not in `seen`, from left to right. -/
def nextLevel (seen : List Nat) (level : List PlanNode) : List PlanNode :=
  unseen seen (level.flatMap (·.inputs))

theorem treeSizeAll_nextLevel (seen : List Nat) {level : List PlanNode} (nonempty : level ≠ []) :
    treeSizeAll (nextLevel seen level) < treeSizeAll level := by
  have smaller := treeSizeAll_inputs level
  have sublist := treeSizeAll_le_of_sublist (unseen_sublist seen (level.flatMap (·.inputs)))
  have := List.length_pos_iff.2 nonempty
  rw [nextLevel]
  omega

/-- The nodes of `level` and, level by level, everything below them that is not
in `seen`. -/
def fromLevel (seen : List Nat) (level : List PlanNode) : List PlanNode :=
  if level = [] then []
  else
    let next := nextLevel seen level
    level ++ fromLevel (next.map (·.key) ++ seen) next
termination_by treeSizeAll level
decreasing_by exact treeSizeAll_nextLevel seen ‹_›

/-- Every node of a plan once, in breadth-first order. -/
def breadthFirst (plan : PlanNode) : List PlanNode := fromLevel [plan.key] [plan]

/-- Every node in breadth-first order with the places of its inputs. -/
def numbered (plan : PlanNode) : List (PlanNode × List Nat) :=
  let nodes := plan.breadthFirst
  let keys := nodes.map (·.key)
  nodes.map fun node => (node, node.inputs.map fun input => keys.idxOf input.key)

end QueryPlan.PlanNode
