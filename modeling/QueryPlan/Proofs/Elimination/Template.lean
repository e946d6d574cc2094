import QueryPlan.Proofs.Plan.Validity
import QueryPlan.Rule.Firing

/-!
# Templates

A template says which nodes are to be built on top of nodes that there are. When
it is well typed, all of them can be built. What a firing builds then depends on
nothing but the next id and the next key of the firing, and is given by
`Template.place` without any effects: inputs come first, from left to right, and
every new node takes one id and one key.
-/

namespace QueryPlan

/-- Nodes that are still to be built, over nodes that there are. -/
inductive Template where
  | existing (node : PlanNode)
  | node (operator : Operator) (inputs : List Template)

namespace Template

mutual
/-- Number of nodes that are still to be built. -/
def size : Template → Nat
  | existing _ => 0
  | node _ inputs => sizeAll inputs + 1

/-- Number of nodes of several templates that are still to be built. -/
def sizeAll : List Template → Nat
  | [] => 0
  | template :: rest => template.size + sizeAll rest
end

mutual
/-- The plan of a template whose new nodes are numbered from `key` and `id` on. -/
def place (key id : Nat) : Template → PlanNode
  | existing leaf => leaf
  | node operator inputs =>
    .assemble (key + sizeAll inputs) (id + sizeAll inputs) operator (placeAll key id inputs)

/-- The plans of several templates, numbered from left to right. -/
def placeAll (key id : Nat) : List Template → List PlanNode
  | [] => []
  | template :: rest =>
    template.place key id :: placeAll (key + template.size) (id + template.size) rest
end

mutual
/-- The new nodes of a placed template, every one after its inputs. -/
def created (key id : Nat) : Template → List PlanNode
  | existing _ => []
  | node operator inputs =>
    createdAll key id inputs ++
      [.assemble (key + sizeAll inputs) (id + sizeAll inputs) operator (placeAll key id inputs)]

/-- The new nodes of several placed templates. -/
def createdAll (key id : Nat) : List Template → List PlanNode
  | [] => []
  | template :: rest =>
    template.created key id ++ createdAll (key + template.size) (id + template.size) rest
end

mutual
/-- Operators of the nodes that are still to be built. -/
def operators : Template → List Operator
  | existing _ => []
  | node operator inputs => operatorsAll inputs ++ [operator]

/-- Operators of the nodes of several templates that are still to be built. -/
def operatorsAll : List Template → List Operator
  | [] => []
  | template :: rest => template.operators ++ operatorsAll rest
end

mutual
/-- The nodes that a template stands on. -/
def leaves : Template → List PlanNode
  | existing leaf => [leaf]
  | node _ inputs => leavesAll inputs

/-- The nodes that several templates stand on. -/
def leavesAll : List Template → List PlanNode
  | [] => []
  | template :: rest => template.leaves ++ leavesAll rest
end

mutual
/-- The column types of a template all of whose operators fit their inputs. -/
inductive Typed : Template → List ScalarType → Prop
  | existing (leaf : PlanNode) : Typed (.existing leaf) leaf.types
  | node {operator : Operator} {inputs : List Template} {inputTypes : List (List ScalarType)}
      {types : List ScalarType} :
      TypedAll inputs inputTypes → operator.Typed inputTypes types →
      Typed (.node operator inputs) types

/-- The column types of several templates. -/
inductive TypedAll : List Template → List (List ScalarType) → Prop
  | nil : TypedAll [] []
  | cons {template : Template} {rest : List Template} {types : List ScalarType}
      {restTypes : List (List ScalarType)} :
      Typed template types → TypedAll rest restTypes →
      TypedAll (template :: rest) (types :: restTypes)
end

mutual
theorem types_place {template : Template} {types : List ScalarType}
    (typed : template.Typed types) (key id : Nat) : (template.place key id).types = types := by
  cases typed with
  | existing leaf => simp only [place]
  | node inputsTyped operatorTyped =>
      rw [← types_placeAll inputsTyped key id] at operatorTyped
      simp only [place]
      exact (PlanNode.build_of_typed operatorTyped).2

theorem types_placeAll {templates : List Template} {types : List (List ScalarType)}
    (typed : TypedAll templates types) (key id : Nat) :
    (placeAll key id templates).map PlanNode.types = types := by
  cases typed with
  | nil => rfl
  | cons first rest =>
      simp only [placeAll, List.map_cons]
      rw [types_place first, types_placeAll rest]
end

mutual
/-- A placed template over built nodes is built. -/
theorem built_place {template : Template} {types : List ScalarType}
    (typed : template.Typed types) (built : ∀ leaf ∈ template.leaves, leaf.Built) (key id : Nat) :
    (template.place key id).Built := by
  cases typed with
  | existing leaf =>
      simp only [place]
      exact built leaf (by simp [leaves])
  | node inputsTyped operatorTyped =>
      rw [← types_placeAll inputsTyped key id] at operatorTyped
      simp only [leaves] at built
      simp only [place]
      exact PlanNode.built_assemble operatorTyped (built_placeAll inputsTyped built key id)

theorem built_placeAll {templates : List Template} {types : List (List ScalarType)}
    (typed : TypedAll templates types) (built : ∀ leaf ∈ leavesAll templates, leaf.Built)
    (key id : Nat) : ∀ node ∈ placeAll key id templates, node.Built := by
  cases typed with
  | nil => simp [placeAll]
  | cons first rest =>
      simp only [leavesAll, List.mem_append] at built
      simp only [placeAll, List.forall_mem_cons]
      refine ⟨built_place first ?_ key id, built_placeAll rest ?_ _ _⟩
      · intro leaf member
        exact built leaf (.inl member)
      · intro leaf member
        exact built leaf (.inr member)
end

mutual
/-- What occurs in a placed template is new or occurs below a leaf. -/
theorem occurs_place (template : Template) (key id : Nat) {node : PlanNode}
    (occurs : PlanNode.Occurs node (template.place key id)) :
    node ∈ template.created key id ∨ ∃ leaf ∈ template.leaves, PlanNode.Occurs node leaf := by
  match template with
  | .existing leaf =>
      simp only [place] at occurs
      exact .inr ⟨leaf, by simp [leaves], occurs⟩
  | .node operator inputs =>
      simp only [place] at occurs
      simp only [created, leaves, List.mem_append, List.mem_singleton]
      rcases PlanNode.occurs_iff.mp occurs with rfl | ⟨input, member, inside⟩
      · exact .inl (.inr rfl)
      · rcases occurs_placeAll inputs key id member inside with new | below
        · exact .inl (.inl new)
        · exact .inr below

theorem occurs_placeAll (templates : List Template) (key id : Nat) {node placed : PlanNode}
    (member : placed ∈ placeAll key id templates) (occurs : PlanNode.Occurs node placed) :
    node ∈ createdAll key id templates ∨
      ∃ leaf ∈ leavesAll templates, PlanNode.Occurs node leaf := by
  match templates with
  | [] => simp [placeAll] at member
  | template :: rest =>
      simp only [createdAll, leavesAll, List.mem_append]
      rcases List.mem_cons.mp member with rfl | later
      · rcases occurs_place template key id occurs with new | ⟨leaf, member, below⟩
        · exact .inl (.inl new)
        · exact .inr ⟨leaf, .inl member, below⟩
      · rcases occurs_placeAll rest _ _ later occurs with new | ⟨leaf, member, below⟩
        · exact .inl (.inr new)
        · exact .inr ⟨leaf, .inr member, below⟩
end

mutual
/-- New nodes occur in the placed template. -/
theorem occurs_of_created (template : Template) {key id : Nat} {node : PlanNode}
    (new : node ∈ template.created key id) : PlanNode.Occurs node (template.place key id) := by
  match template with
  | .existing _ => simp [created] at new
  | .node operator inputs =>
      rw [created, List.mem_append, List.mem_singleton] at new
      rw [place]
      rcases new with below | rfl
      · obtain ⟨placed, isInput, inside⟩ := occurs_of_createdAll inputs below
        exact inside.trans (.input isInput)
      · exact .here

theorem occurs_of_createdAll (templates : List Template) {key id : Nat} {node : PlanNode}
    (new : node ∈ createdAll key id templates) :
    ∃ placed ∈ placeAll key id templates, PlanNode.Occurs node placed := by
  match templates with
  | [] => simp [createdAll] at new
  | template :: rest =>
      rw [createdAll, List.mem_append] at new
      rcases new with first | later
      · exact ⟨_, List.mem_cons_self, occurs_of_created template first⟩
      · obtain ⟨placed, isInput, inside⟩ := occurs_of_createdAll rest later
        exact ⟨placed, List.mem_cons_of_mem _ isInput, inside⟩
end

mutual
/-- New nodes are numbered one after the other. -/
theorem map_id_created (template : Template) (key id : Nat) :
    (template.created key id).map (·.id) = List.range' id template.size := by
  match template with
  | .existing _ => rfl
  | .node operator inputs =>
      rw [created, List.map_append, map_id_createdAll, size, List.range'_1_concat]
      rfl

theorem map_id_createdAll (templates : List Template) (key id : Nat) :
    (createdAll key id templates).map (·.id) = List.range' id (sizeAll templates) := by
  match templates with
  | [] => rfl
  | template :: rest =>
      rw [createdAll, List.map_append, map_id_created, map_id_createdAll, sizeAll,
        List.range'_append_1]
end

theorem length_created (template : Template) (key id : Nat) :
    (template.created key id).length = template.size := by
  have lengths := congrArg List.length (map_id_created template key id)
  rwa [List.length_map, List.length_range'] at lengths

/-- A new node has an id of the supply. -/
theorem id_of_created {template : Template} {key id : Nat} {node : PlanNode}
    (new : node ∈ template.created key id) : id ≤ node.id ∧ node.id < id + template.size := by
  have listed := List.mem_map_of_mem (f := fun node : PlanNode => node.id) new
  rw [map_id_created, List.mem_range'_1] at listed
  exact listed

/-- The root of a template with new nodes is the last of them. -/
theorem place_of_new {template : Template} (new : template.size ≠ 0) (key id : Nat) :
    template.place key id ∈ template.created key id ∧
      (template.place key id).id + 1 = id + template.size := by
  match template with
  | .existing _ => exact absurd rfl new
  | .node operator inputs => exact ⟨by simp [place, created], rfl⟩

mutual
/-- New nodes get one key after the other. -/
theorem map_key_created (template : Template) (key id : Nat) :
    (template.created key id).map (·.key) = List.range' key template.size := by
  match template with
  | .existing _ => rfl
  | .node operator inputs =>
      rw [created, List.map_append, map_key_createdAll, size, List.range'_1_concat]
      rfl

theorem map_key_createdAll (templates : List Template) (key id : Nat) :
    (createdAll key id templates).map (·.key) = List.range' key (sizeAll templates) := by
  match templates with
  | [] => rfl
  | template :: rest =>
      rw [createdAll, List.map_append, map_key_created, map_key_createdAll, sizeAll,
        List.range'_append_1]
end

mutual
theorem key_of_created (template : Template) {firstKey id : Nat} {node : PlanNode}
    (new : node ∈ template.created (firstKey + id) id) : node.key = firstKey + node.id := by
  match template with
  | .existing _ => simp [created] at new
  | .node operator inputs =>
      rw [created, List.mem_append, List.mem_singleton] at new
      rcases new with below | rfl
      · exact key_of_createdAll inputs below
      · exact Nat.add_assoc _ _ _

theorem key_of_createdAll (templates : List Template) {firstKey id : Nat} {node : PlanNode}
    (new : node ∈ createdAll (firstKey + id) id templates) : node.key = firstKey + node.id := by
  match templates with
  | [] => simp [createdAll] at new
  | template :: rest =>
      rw [createdAll, List.mem_append, Nat.add_assoc] at new
      rcases new with first | later
      · exact key_of_created template first
      · exact key_of_createdAll rest later
end

mutual
/-- A placed template is a leaf or a new node. -/
theorem place_mem (template : Template) (key id : Nat) :
    template.place key id ∈ template.leaves ∨
      template.place key id ∈ template.created key id := by
  match template with
  | .existing leaf => exact .inl (by simp [place, leaves])
  | .node operator inputs => exact .inr (by simp [place, created])

theorem placeAll_mem (templates : List Template) (key id : Nat) :
    ∀ placed ∈ placeAll key id templates,
      placed ∈ leavesAll templates ∨ placed ∈ createdAll key id templates := by
  match templates with
  | [] => simp [placeAll]
  | template :: rest =>
      simp only [placeAll, leavesAll, createdAll, List.mem_append, List.forall_mem_cons]
      constructor
      · rcases place_mem template key id with leaf | new
        · exact .inl (.inl leaf)
        · exact .inr (.inl new)
      · intro placed member
        rcases placeAll_mem rest _ _ placed member with leaf | new
        · exact .inl (.inr leaf)
        · exact .inr (.inr new)
end

mutual
/-- New nodes stand on leaves and on new nodes. -/
theorem input_of_created (template : Template) {key id : Nat} {node input : PlanNode}
    (new : node ∈ template.created key id) (isInput : input ∈ node.inputs) :
    input ∈ template.leaves ∨ input ∈ template.created key id := by
  match template with
  | .existing _ => simp [created] at new
  | .node operator inputs =>
      rw [created, List.mem_append, List.mem_singleton] at new
      simp only [leaves, created, List.mem_append]
      have either : input ∈ leavesAll inputs ∨ input ∈ createdAll key id inputs := by
        rcases new with below | rfl
        · exact input_of_createdAll inputs below isInput
        · exact placeAll_mem inputs key id input isInput
      exact either.imp_right .inl

theorem input_of_createdAll (templates : List Template) {key id : Nat} {node input : PlanNode}
    (new : node ∈ createdAll key id templates) (isInput : input ∈ node.inputs) :
    input ∈ leavesAll templates ∨ input ∈ createdAll key id templates := by
  match templates with
  | [] => simp [createdAll] at new
  | template :: rest =>
      rw [createdAll, List.mem_append] at new
      simp only [leavesAll, createdAll, List.mem_append]
      rcases new with first | later
      · exact (input_of_created template first isInput).imp .inl .inl
      · exact (input_of_createdAll rest later isInput).imp .inr .inr
end

mutual
theorem map_operator_created (template : Template) (key id : Nat) :
    (template.created key id).map (·.operator) = template.operators := by
  match template with
  | .existing _ => rfl
  | .node operator inputs =>
      simp [created, operators, map_operator_createdAll inputs, PlanNode.assemble]

theorem map_operator_createdAll (templates : List Template) (key id : Nat) :
    (createdAll key id templates).map (·.operator) = operatorsAll templates := by
  match templates with
  | [] => rfl
  | template :: rest =>
      simp [createdAll, operatorsAll, map_operator_created template, map_operator_createdAll rest]
end

end Template

namespace Firing

/-- The firing after so many ids and keys were used. -/
def advance (firing : Firing) (count : Nat) : Firing :=
  { firing with nextId := firing.nextId + count, nextKey := firing.nextKey + count }

@[simp] theorem advance_zero (firing : Firing) : firing.advance 0 = firing := rfl

@[simp] theorem advance_advance (firing : Firing) (first second : Nat) :
    (firing.advance first).advance second = firing.advance (first + second) := by
  simp only [advance, Nat.add_assoc]

/-- When the inputs of a template are built, the node on top of them can be built
as well. -/
theorem perform_create_placed {operator : Operator} {inputs : List Template}
    {types : List ScalarType} (typed : (Template.node operator inputs).Typed types)
    (firing : Firing) :
    Step.perform (create operator (Template.placeAll firing.nextKey firing.nextId inputs))
        (firing.advance (Template.sizeAll inputs)) =
      (.ok ((Template.node operator inputs).place firing.nextKey firing.nextId),
        firing.advance (Template.node operator inputs).size) := by
  cases typed with
  | node inputsTyped operatorTyped =>
      rw [← Template.types_placeAll inputsTyped firing.nextKey firing.nextId] at operatorTyped
      rw [perform_create]
      simp only [advance, (PlanNode.build_of_typed operatorTyped).1, Template.place, Template.size,
        Nat.add_assoc]

end Firing

end QueryPlan
