import QueryPlan.Operator.Output

/-!
# Plan nodes

A plan is a directed acyclic graph of operators, given by its root node. A node
that several parents read is one node: its `key` tells it apart from every node
built separately, so nodes with equal keys are the same node. The `id` is a
label that separately built plans may use twice; equality looks at neither.

`PlanNode.build` is the only way in: it checks the operator against the inputs
and records the output fields.
-/

namespace QueryPlan

/-- A node of a plan. -/
structure PlanNode where
  /-- Identity of the node. -/
  key : Nat
  /-- Label of the node, not necessarily unique. -/
  id : Nat
  operator : Operator
  inputs : List PlanNode
  /-- Fields of the rows that the node produces. -/
  schema : Schema

namespace PlanNode

/-- Induction over plans, with the hypothesis for every input. -/
theorem induct {motive : PlanNode → Prop}
    (node : ∀ key id operator inputs schema, (∀ input ∈ inputs, motive input) →
      motive ⟨key, id, operator, inputs, schema⟩) :
    ∀ plan, motive plan :=
  @PlanNode.rec motive (fun inputs => ∀ input ∈ inputs, motive input) node
    (fun _ member => nomatch member)
    (fun head tail forHead forTail input member => by
      cases member with
      | head => exact forHead
      | tail _ member => exact forTail input member)

/-- Builds a node after checking `operator` against its inputs. -/
def build (key id : Nat) (operator : Operator) (inputs : List PlanNode) :
    Except PlanError PlanNode :=
  if inputs.length ≠ operator.arity then
    .error (.malformed (.arity operator inputs.length))
  else
    match operator.outputSchema (inputs.map (·.schema)) with
    | .ok schema => .ok ⟨key, id, operator, inputs, schema⟩
    | .error cause => .error ((PlanError.malformed cause).during (.building operator))

/-- Whether two nodes are one and the same. -/
def isSame (left right : PlanNode) : Bool := left.key == right.key

mutual
/-- Equal operators over equal inputs with equal fields; keys and ids do not count. -/
def beq : PlanNode → PlanNode → Bool
  | ⟨_, _, operator, inputs, schema⟩, ⟨_, _, operator', inputs', schema'⟩ =>
    operator == operator' && beqAll inputs inputs' && schema == schema'

/-- Equality of input lists. -/
def beqAll : List PlanNode → List PlanNode → Bool
  | [], [] => true
  | left :: lefts, right :: rights => beq left right && beqAll lefts rights
  | _, _ => false
end

instance : BEq PlanNode := ⟨beq⟩

mutual
/-- Number of nodes of a plan unrolled into a tree. -/
def treeSize : PlanNode → Nat
  | ⟨_, _, _, inputs, _⟩ => treeSizeAll inputs + 1

/-- Number of nodes of several plans unrolled into trees. -/
def treeSizeAll : List PlanNode → Nat
  | [] => 0
  | node :: rest => node.treeSize + treeSizeAll rest
end

@[simp] theorem treeSizeAll_append (left right : List PlanNode) :
    treeSizeAll (left ++ right) = treeSizeAll left + treeSizeAll right := by
  induction left with
  | nil => simp [treeSizeAll]
  | cons node rest ih => simp [treeSizeAll, ih, Nat.add_assoc]

theorem treeSize_eq (node : PlanNode) : node.treeSize = treeSizeAll node.inputs + 1 := by
  cases node
  simp [treeSize]

/-- The inputs of some nodes make up smaller trees than the nodes themselves. -/
theorem treeSizeAll_inputs (nodes : List PlanNode) :
    treeSizeAll (nodes.flatMap (·.inputs)) + nodes.length = treeSizeAll nodes := by
  induction nodes with
  | nil => simp [treeSizeAll]
  | cons node rest ih =>
    simp only [List.flatMap_cons, treeSizeAll_append, treeSizeAll, treeSize_eq, List.length_cons]
    omega

end PlanNode

end QueryPlan
