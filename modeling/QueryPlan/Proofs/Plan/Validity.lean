import QueryPlan.Node.Basic
import QueryPlan.Proofs.Typing.Operator

/-!
# Valid plans

A plan is valid when every node that occurs in it was accepted by
`PlanNode.build` and when nodes with one key are one node. The labels of the
nodes are not part of this: a valid plan may use one id many times.

What `build` makes of inputs with fitting types is `PlanNode.assemble`, which is
total and says all there is to say about a built node.
-/

namespace QueryPlan

/-- A map that keeps every member keeps the list. -/
theorem map_eq_self {α : Type} {image : α → α} {members : List α}
    (kept : ∀ member ∈ members, image member = member) : members.map image = members := by
  induction members with
  | nil => rfl
  | cons first rest ih =>
      rw [List.map_cons, kept first List.mem_cons_self,
        ih fun member later => kept member (List.mem_cons_of_mem _ later)]

namespace PlanNode

/-- `node` is `plan` or lies below it. -/
inductive Occurs (node : PlanNode) : PlanNode → Prop
  | here : Occurs node node
  | under {input plan : PlanNode} : input ∈ plan.inputs → Occurs node input → Occurs node plan

theorem Occurs.trans {inner middle outer : PlanNode} (first : Occurs inner middle)
    (second : Occurs middle outer) : Occurs inner outer := by
  induction second with
  | here => exact first
  | under member _ ih => exact .under member ih

theorem Occurs.input {input plan : PlanNode} (member : input ∈ plan.inputs) :
    Occurs input plan :=
  .under member .here

/-- What occurs in a plan is its root or occurs in one of its inputs. -/
theorem occurs_iff {node plan : PlanNode} :
    Occurs node plan ↔ node = plan ∨ ∃ input ∈ plan.inputs, Occurs node input := by
  constructor
  · intro occurs
    cases occurs with
    | here => exact .inl rfl
    | under member inside => exact .inr ⟨_, member, inside⟩
  · rintro (rfl | ⟨input, member, inside⟩)
    · exact .here
    · exact .under member inside

/-- A collection that holds a plan and the inputs of all its members holds all
that occurs in the plan. -/
theorem Occurs.closed {member : PlanNode → Prop}
    (closed : ∀ node, member node → ∀ input ∈ node.inputs, member input) {node plan : PlanNode}
    (occurs : Occurs node plan) (root : member plan) : member node := by
  induction occurs with
  | here => exact root
  | @under input plan isInput _ ih => exact ih (closed plan root input isInput)

theorem treeSize_le_treeSizeAll {node : PlanNode} {nodes : List PlanNode} (member : node ∈ nodes) :
    node.treeSize ≤ treeSizeAll nodes := by
  induction nodes with
  | nil => simp at member
  | cons first rest ih =>
      rw [treeSizeAll]
      rcases List.mem_cons.mp member with rfl | later
      · exact Nat.le_add_right _ _
      · exact Nat.le_trans (ih later) (Nat.le_add_left _ _)

theorem Occurs.treeSize_le {node plan : PlanNode} (occurs : Occurs node plan) :
    node.treeSize ≤ plan.treeSize := by
  induction occurs with
  | here => exact Nat.le_refl _
  | @under input plan member _ ih =>
      have smaller := treeSize_le_treeSizeAll member
      rw [treeSize_eq plan]
      omega

/-- A plan does not occur below itself. -/
theorem not_occurs_input {input plan : PlanNode} (member : input ∈ plan.inputs) :
    ¬Occurs plan input := by
  intro occurs
  have larger := occurs.treeSize_le
  have smaller := treeSize_le_treeSizeAll member
  rw [treeSize_eq plan] at larger
  omega

/-- What is below a node is not above it. -/
theorem Occurs.antisymm {node other : PlanNode} (below : Occurs node other)
    (above : Occurs other node) : node = other := by
  rcases occurs_iff.mp below with same | ⟨input, member, inside⟩
  · exact same
  · exact absurd (above.trans inside) (not_occurs_input member)

/-- Types of the output columns. -/
def types (node : PlanNode) : List ScalarType := node.schema.types

/-- Whether a node is what `build` gives for its operator and inputs. -/
def Checked (node : PlanNode) : Prop :=
  build node.key node.id node.operator node.inputs = .ok node

/-- Whether every node of a plan was built. -/
def Built (plan : PlanNode) : Prop := ∀ node, Occurs node plan → node.Checked

/-- Whether nodes of a plan with one key are one node. -/
def Coherent (plan : PlanNode) : Prop :=
  ∀ left right, Occurs left plan → Occurs right plan → left.key = right.key → left = right

/-- A plan that was built node by node, its nodes told apart by their keys. -/
structure Valid (plan : PlanNode) : Prop where
  built : plan.Built
  coherent : plan.Coherent

theorem Built.of_occurs {node plan : PlanNode} (built : plan.Built) (occurs : Occurs node plan) :
    node.Built :=
  fun _ inside => built _ (inside.trans occurs)

theorem Coherent.of_occurs {node plan : PlanNode} (coherent : plan.Coherent)
    (occurs : Occurs node plan) : node.Coherent :=
  fun left right leftOccurs rightOccurs =>
    coherent left right (leftOccurs.trans occurs) (rightOccurs.trans occurs)

theorem Built.input {input plan : PlanNode} (built : plan.Built) (member : input ∈ plan.inputs) :
    input.Built :=
  built.of_occurs (.input member)

theorem built_iff {plan : PlanNode} :
    plan.Built ↔ plan.Checked ∧ ∀ input ∈ plan.inputs, input.Built := by
  constructor
  · intro built
    exact ⟨built plan .here, fun input member => built.input member⟩
  · rintro ⟨checked, inputs⟩ node occurs
    rcases occurs_iff.mp occurs with rfl | ⟨input, member, inside⟩
    · exact checked
    · exact inputs input member node inside

/-- The node that `build` makes of accepted inputs. -/
def assemble (key id : Nat) (operator : Operator) (inputs : List PlanNode) : PlanNode :=
  ⟨key, id, operator, inputs, operator.fields (inputs.map (·.schema))⟩

variable {key id : Nat} {operator : Operator} {inputs : List PlanNode}

theorem map_types_schema (nodes : List PlanNode) :
    (nodes.map (·.schema)).map Schema.types = nodes.map types := by
  simp [types]

/-- Inputs with fitting types are accepted, and then the output types are the
derived ones. -/
theorem build_of_typed {output : List ScalarType}
    (typed : operator.Typed (inputs.map types) output) :
    build key id operator inputs = .ok (assemble key id operator inputs) ∧
      (assemble key id operator inputs).types = output := by
  rw [← map_types_schema] at typed
  rcases Operator.outputSchema_of_typed typed with ⟨arity, accepted, equal⟩
  rw [List.length_map] at arity
  refine ⟨?_, equal⟩
  simp only [build, arity, ne_eq, not_true, if_false, accepted]
  rfl

/-- What is built is assembled from inputs with fitting types. -/
theorem typed_of_build {node : PlanNode} (accepted : build key id operator inputs = .ok node) :
    operator.Typed (inputs.map types) node.types ∧ node = assemble key id operator inputs := by
  rw [build] at accepted
  split at accepted
  · simp at accepted
  · rename_i arity
    split at accepted
    · rename_i schema derived
      rcases Except.ok.inj accepted with rfl
      have lengths : (inputs.map (·.schema)).length = operator.arity := by
        simpa using arity
      rcases Operator.typed_of_outputSchema lengths derived with ⟨typed, equal⟩
      rw [map_types_schema] at typed
      refine ⟨typed, ?_⟩
      simp only [assemble, equal]
    · simp at accepted

theorem Checked.typed {node : PlanNode} (checked : node.Checked) :
    node.operator.Typed (node.inputs.map types) node.types :=
  (typed_of_build checked).1

theorem Checked.eq_assemble {node : PlanNode} (checked : node.Checked) :
    node = assemble node.key node.id node.operator node.inputs :=
  (typed_of_build checked).2

theorem Checked.schema_eq {node : PlanNode} (checked : node.Checked) :
    node.schema = node.operator.fields (node.inputs.map (·.schema)) :=
  congrArg schema checked.eq_assemble

/-- Inputs may be exchanged for built ones with the same types: the node over
them is accepted again, with the same output types. -/
theorem build_of_same_types {node : PlanNode} (checked : node.Checked)
    (same : inputs.map types = node.inputs.map types) :
    build key id node.operator inputs = .ok (assemble key id node.operator inputs) ∧
      (assemble key id node.operator inputs).types = node.types :=
  build_of_typed (same ▸ checked.typed)

theorem checked_assemble {output : List ScalarType}
    (typed : operator.Typed (inputs.map types) output) :
    (assemble key id operator inputs).Checked :=
  (build_of_typed typed).1

theorem built_assemble {output : List ScalarType}
    (typed : operator.Typed (inputs.map types) output) (built : ∀ input ∈ inputs, input.Built) :
    (assemble key id operator inputs).Built :=
  built_iff.mpr ⟨checked_assemble typed, built⟩

end PlanNode

end QueryPlan
