import QueryPlan.Proofs.Graph.Graft

/-!
# Keys of a graft

New nodes may come with any keys. A graph tells nodes apart by their ids and
exports them with keys that go with the ids, so what is grafted is the plan with
its keys set in this way (`rekey`). This does not change nodes that were exported
from the graph.
-/

namespace QueryPlan

namespace PlanNode

mutual
/-- The plan with keys that go with the ids. -/
def rekey (firstKey : Nat) : PlanNode → PlanNode
  | ⟨_, id, operator, inputs, schema⟩ =>
    ⟨firstKey + id, id, operator, rekeyAll firstKey inputs, schema⟩

/-- Several plans with keys that go with the ids. -/
def rekeyAll (firstKey : Nat) : List PlanNode → List PlanNode
  | [] => []
  | node :: rest => rekey firstKey node :: rekeyAll firstKey rest
end

variable {firstKey : Nat}

@[simp] theorem rekeyAll_eq_map (nodes : List PlanNode) :
    rekeyAll firstKey nodes = nodes.map (rekey firstKey) := by
  induction nodes with
  | nil => rfl
  | cons node rest ih => simp [rekeyAll, ih]

theorem rekey_eq (node : PlanNode) :
    rekey firstKey node =
      ⟨firstKey + node.id, node.id, node.operator, node.inputs.map (rekey firstKey), node.schema⟩ := by
  cases node
  simp [rekey]

@[simp] theorem key_rekey (node : PlanNode) : (rekey firstKey node).key = firstKey + node.id := by
  rw [rekey_eq]

@[simp] theorem id_rekey (node : PlanNode) : (rekey firstKey node).id = node.id := by
  rw [rekey_eq]

@[simp] theorem operator_rekey (node : PlanNode) :
    (rekey firstKey node).operator = node.operator := by
  rw [rekey_eq]

@[simp] theorem schema_rekey (node : PlanNode) : (rekey firstKey node).schema = node.schema := by
  rw [rekey_eq]

@[simp] theorem inputs_rekey (node : PlanNode) :
    (rekey firstKey node).inputs = node.inputs.map (rekey firstKey) := by
  rw [rekey_eq]

@[simp] theorem types_rekey (node : PlanNode) : (rekey firstKey node).types = node.types :=
  congrArg Schema.types (schema_rekey node)

theorem exists_of_occurs_rekey {inner plan : PlanNode} (occurs : Occurs inner (rekey firstKey plan)) :
    ∃ original, Occurs original plan ∧ rekey firstKey original = inner := by
  induction plan using PlanNode.induct with
  | node key id operator inputs schema ih =>
      rcases occurs_iff.mp occurs with rfl | ⟨input, isInput, inside⟩
      · exact ⟨_, .here, rfl⟩
      · rw [inputs_rekey] at isInput
        obtain ⟨original, member, rfl⟩ := List.mem_map.mp isInput
        obtain ⟨below, occursBelow, same⟩ := ih original member inside
        exact ⟨below, .under member occursBelow, same⟩

theorem checked_rekey {node : PlanNode} (checked : node.Checked) :
    (rekey firstKey node).Checked := by
  have schemas : (node.inputs.map (rekey firstKey)).map (·.schema) = node.inputs.map (·.schema) := by
    rw [List.map_map]
    exact List.map_congr_left fun input _ => schema_rekey input
  have types : (node.inputs.map (rekey firstKey)).map PlanNode.types =
      node.inputs.map PlanNode.types := by
    rw [List.map_map]
    exact List.map_congr_left fun input _ => types_rekey input
  rw [Checked, key_rekey, id_rekey, operator_rekey, inputs_rekey,
    (build_of_same_types checked types).1, assemble, schemas, ← checked.schema_eq, rekey_eq]

theorem built_rekey {plan : PlanNode} (built : plan.Built) : (rekey firstKey plan).Built := by
  intro inner occurs
  obtain ⟨original, inPlan, rfl⟩ := exists_of_occurs_rekey occurs
  exact checked_rekey (built original inPlan)

/-- Keys that go with the ids stay. -/
theorem rekey_of_keys {plan : PlanNode}
    (keys : ∀ inner, Occurs inner plan → inner.key = firstKey + inner.id) :
    rekey firstKey plan = plan := by
  induction plan using PlanNode.induct with
  | node key id operator inputs schema ih =>
      have kept : inputs.map (rekey firstKey) = inputs :=
        map_eq_self fun input member =>
          ih input member fun inner inside => keys inner (.under member inside)
      have same : key = firstKey + id := keys _ .here
      rw [rekey, rekeyAll_eq_map, kept, ← same]

end PlanNode

namespace PlanDag

variable {firstKey : Nat} {present : List Nat}

mutual
/-- The import of a replacement does not look at its keys. -/
theorem newVertices_rekey (plan : PlanNode) (added : List Vertex) :
    newVertices present added (plan.rekey firstKey) = newVertices present added plan := by
  match plan with
  | ⟨key, id, operator, inputs, schema⟩ =>
      have ids : (inputs.map (PlanNode.rekey firstKey)).map (·.id) = inputs.map (·.id) := by
        rw [List.map_map]
        exact List.map_congr_left fun input _ => PlanNode.id_rekey input
      rw [PlanNode.rekey, newVertices, newVertices, newVerticesAll_rekey inputs,
        PlanNode.rekeyAll_eq_map, ids]

theorem newVerticesAll_rekey (plans : List PlanNode) (added : List Vertex) :
    newVerticesAll present added (PlanNode.rekeyAll firstKey plans) =
      newVerticesAll present added plans := by
  match plans with
  | [] => rfl
  | plan :: rest =>
      rw [PlanNode.rekeyAll, newVerticesAll, newVerticesAll, newVertices_rekey plan,
        newVerticesAll_rekey rest]
end

theorem replace_rekey (graph : PlanDag) (origin : Nat) (plan : PlanNode) :
    graph.replace origin (plan.rekey firstKey) = graph.replace origin plan := by
  rw [replace, replace, PlanNode.id_rekey, newVertices_rekey]

end PlanDag

open PlanNode

namespace Represents

variable {graph : PlanDag} {firstKey : Nat} {node : Nat → PlanNode} {target : Vertex}
  {graft : PlanNode}

/-- Nodes of an exported plan have keys that go with the ids. -/
theorem rekey_eq (represents : Represents graph firstKey node) {inner : PlanNode}
    (occurs : Occurs inner (node graph.root)) : inner.rekey firstKey = inner := by
  apply rekey_of_keys
  intro other inside
  obtain ⟨listed, same⟩ := represents.eq_label (inside.trans occurs)
  rw [← same, represents.labels.key_eq listed, represents.labels.id_eq listed]

/-- A plan of nodes below a vertex and of new nodes can be grafted once its keys
go with its ids. -/
theorem graftable_rekey (represents : Represents graph firstKey node)
    (member : target ∈ graph.vertices) (built : graft.Built)
    (types : graft.types = (node target.id).types)
    (known : ∀ inner, Occurs inner graft → inner.id ∈ graph.ids → Occurs inner (node target.id))
    (unique : ∀ left right, Occurs left graft → Occurs right graft → left.id ∉ graph.ids →
      left.id = right.id → left = right)
    (apart : graft.id ≠ target.id) :
    Graftable graph firstKey node target (graft.rekey firstKey) := by
  have inPlan := represents.occurs_label (List.mem_map_of_mem member)
  refine ⟨represents, member, built_rekey built, (types_rekey graft).trans types, ?_, ?_, ?_,
    by rwa [id_rekey]⟩
  · intro inner occurs
    obtain ⟨original, _, rfl⟩ := exists_of_occurs_rekey occurs
    rw [key_rekey, id_rekey]
  · intro inner occurs placed
    obtain ⟨original, inGraft, rfl⟩ := exists_of_occurs_rekey occurs
    rw [id_rekey] at placed
    have below := known original inGraft placed
    rwa [represents.rekey_eq (below.trans inPlan)]
  · intro left right leftOccurs rightOccurs unplaced same
    obtain ⟨leftOriginal, leftInGraft, rfl⟩ := exists_of_occurs_rekey leftOccurs
    obtain ⟨rightOriginal, rightInGraft, rfl⟩ := exists_of_occurs_rekey rightOccurs
    rw [id_rekey] at unplaced
    rw [id_rekey, id_rekey] at same
    rw [unique leftOriginal rightOriginal leftInGraft rightInGraft unplaced same]

end Represents

end QueryPlan
