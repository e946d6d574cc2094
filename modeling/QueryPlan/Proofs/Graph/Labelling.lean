import Mathlib.Logic.Relation
import QueryPlan.Proofs.Graph.Order
import QueryPlan.Proofs.Plan.Substitution

/-!
# The plan of a working graph

A labelling gives every vertex the plan node that is built from it and from the
nodes of its inputs. A graph represents the plan at its root when its vertices
are ordered and labelled and the root reaches all of them. Then the graph is
exported without an error, the plan is valid, and its nodes are the labels of
the vertices, each vertex having a node of its own.
-/

namespace QueryPlan

/-- Whether `node` gives every vertex the node that is built from it. -/
def Labels (firstKey : Nat) (vertices : List Vertex) (node : Nat → PlanNode) : Prop :=
  ∀ vertex ∈ vertices,
    PlanNode.build (firstKey + vertex.id) vertex.id vertex.operator (vertex.inputs.map node) =
      .ok (node vertex.id)

namespace Labels

variable {firstKey : Nat} {vertices : List Vertex} {node : Nat → PlanNode}

theorem eq_assemble (labels : Labels firstKey vertices node) {vertex : Vertex}
    (member : vertex ∈ vertices) :
    node vertex.id = .assemble (firstKey + vertex.id) vertex.id vertex.operator
      (vertex.inputs.map node) :=
  (PlanNode.typed_of_build (labels vertex member)).2

theorem id_eq (labels : Labels firstKey vertices node) {id : Nat}
    (member : id ∈ vertices.map (·.id)) : (node id).id = id := by
  rcases List.mem_map.mp member with ⟨vertex, present, rfl⟩
  rw [labels.eq_assemble present]
  rfl

theorem key_eq (labels : Labels firstKey vertices node) {id : Nat}
    (member : id ∈ vertices.map (·.id)) : (node id).key = firstKey + id := by
  rcases List.mem_map.mp member with ⟨vertex, present, rfl⟩
  rw [labels.eq_assemble present]
  rfl

theorem operator_eq (labels : Labels firstKey vertices node) {vertex : Vertex}
    (member : vertex ∈ vertices) : (node vertex.id).operator = vertex.operator := by
  rw [labels.eq_assemble member]
  rfl

theorem inputs_eq (labels : Labels firstKey vertices node) {vertex : Vertex}
    (member : vertex ∈ vertices) : (node vertex.id).inputs = vertex.inputs.map node := by
  rw [labels.eq_assemble member]
  rfl

/-- The labels of what a vertex reads are inputs of its label. -/
theorem mem_inputs (labels : Labels firstKey vertices node) {vertex : Vertex}
    (member : vertex ∈ vertices) {id : Nat} (reads : id ∈ vertex.inputs) :
    node id ∈ (node vertex.id).inputs := by
  rw [labels.inputs_eq member]
  exact List.mem_map_of_mem reads

/-- Every label is what is built from its operator and its inputs. -/
theorem checked (labels : Labels firstKey vertices node) {vertex : Vertex}
    (member : vertex ∈ vertices) : (node vertex.id).Checked := by
  have built := labels vertex member
  rw [PlanNode.Checked]
  rw [labels.key_eq (List.mem_map_of_mem member), labels.id_eq (List.mem_map_of_mem member),
    labels.operator_eq member, labels.inputs_eq member]
  exact built

/-- The export of ordered vertices gives the labels, latest first. -/
theorem foldlM_eq {below : List Nat} (labels : Labels firstKey vertices node)
    (ordered : Ordered below vertices) (ids : ∀ id ∈ below, (node id).id = id) :
    vertices.foldlM (fun built vertex => do
        return (← PlanDag.exportVertex firstKey built vertex) :: built) (below.map node) =
      .ok (((vertices.map (·.id)).reverse ++ below).map node) := by
  induction vertices generalizing below with
  | nil => rfl
  | cons vertex rest ih =>
      rcases ordered with ⟨_, _, inputs, later⟩
      have found : vertex.inputs.filterMap (fun id => (below.map node).find? (·.id == id)) =
          vertex.inputs.map node := by
        apply filterMap_eq_map_of_some
        intro input member
        apply find?_eq_some_of_unique (List.mem_map_of_mem (inputs input member))
        · rw [ids input (inputs input member)]
          exact BEq.rfl
        · intro other present same
          rcases List.mem_map.mp present with ⟨id, listed, rfl⟩
          rw [ids id listed] at same
          rw [eq_of_beq same]
      have exported : PlanDag.exportVertex firstKey (below.map node) vertex =
          .ok (node vertex.id) := by
        rw [PlanDag.exportVertex, found]
        exact labels vertex List.mem_cons_self
      have further := ih (fun other member => labels other (List.mem_cons_of_mem _ member)) later (by
          intro id member
          rcases List.mem_cons.mp member with rfl | old
          · exact labels.id_eq (by simp)
          · exact ids id old)
      rw [List.foldlM_cons, exported]
      simp only [List.map_cons, List.reverse_cons, List.append_assoc, List.singleton_append]
      exact further

end Labels

/-- Whether a vertex with one id reads the vertex with another one. -/
def Reads (vertices : List Vertex) (id input : Nat) : Prop :=
  ∃ vertex ∈ vertices, vertex.id = id ∧ input ∈ vertex.inputs

/-- Whether a chain of reads leads from one id to another one. -/
abbrev Reaches (vertices : List Vertex) : Nat → Nat → Prop :=
  Relation.ReflTransGen (Reads vertices)

/-- A graph with the labels of its vertices, all of them reached by the root. -/
structure Represents (graph : PlanDag) (firstKey : Nat) (node : Nat → PlanNode) : Prop where
  ordered : Ordered [] graph.vertices
  labels : Labels firstKey graph.vertices node
  root : graph.root ∈ graph.ids
  reachable : ∀ vertex ∈ graph.vertices, Reaches graph.vertices graph.root vertex.id

namespace Represents

variable {graph : PlanDag} {firstKey : Nat} {node : Nat → PlanNode}

theorem nodes_eq (represents : Represents graph firstKey node) :
    graph.nodes firstKey = .ok (graph.ids.reverse.map node) := by
  have exported := represents.labels.foldlM_eq represents.ordered (by simp)
  rw [List.append_nil] at exported
  exact exported

/-- The node of a vertex is found by its id. -/
theorem find?_node (represents : Represents graph firstKey node) {id : Nat}
    (member : id ∈ graph.ids) :
    (graph.ids.reverse.map node).find? (·.id == id) = some (node id) := by
  apply find?_eq_some_of_unique (List.mem_map_of_mem (List.mem_reverse.mpr member))
  · rw [represents.labels.id_eq member]
    exact BEq.rfl
  · intro other present same
    rcases List.mem_map.mp present with ⟨otherId, listed, rfl⟩
    rw [represents.labels.id_eq (List.mem_reverse.mp listed)] at same
    rw [eq_of_beq same]

/-- The export of a graph never fails, and gives the plan it represents. -/
theorem toPlan_eq (represents : Represents graph firstKey node) :
    graph.toPlan firstKey = .ok (node graph.root) := by
  rw [PlanDag.toPlan]
  rw [represents.nodes_eq]
  simp only [Bind.bind, Except.bind, represents.find?_node represents.root]

theorem input_mem (represents : Represents graph firstKey node) {vertex : Vertex}
    (member : vertex ∈ graph.vertices) {input : Nat} (isInput : input ∈ vertex.inputs) :
    input ∈ graph.ids := by
  rcases represents.ordered.input_mem member isInput with below | listed
  · simp at below
  · exact listed

/-- The nodes of the plan are the labels of the vertices. -/
theorem exists_of_occurs (represents : Represents graph firstKey node) {id : Nat}
    (member : id ∈ graph.ids) {inner : PlanNode} (occurs : PlanNode.Occurs inner (node id)) :
    ∃ vertex ∈ graph.vertices, node vertex.id = inner := by
  generalize equal : node id = plan at occurs
  induction occurs generalizing id with
  | here =>
      rcases List.mem_map.mp member with ⟨vertex, present, rfl⟩
      exact ⟨vertex, present, equal⟩
  | under isInput _ ih =>
      rcases List.mem_map.mp member with ⟨vertex, present, rfl⟩
      rw [← equal, represents.labels.inputs_eq present] at isInput
      rcases List.mem_map.mp isInput with ⟨input, listed, same⟩
      exact ih (represents.input_mem present listed) same

theorem occurs_of_reaches (represents : Represents graph firstKey node) {start id : Nat}
    (reaches : Reaches graph.vertices start id) :
    PlanNode.Occurs (node id) (node start) := by
  induction reaches with
  | refl => exact .here
  | tail _ reads ih =>
      rcases reads with ⟨vertex, present, rfl, isInput⟩
      exact (PlanNode.Occurs.input (represents.labels.mem_inputs present isInput)).trans ih

theorem occurs_iff (represents : Represents graph firstKey node) {inner : PlanNode} :
    PlanNode.Occurs inner (node graph.root) ↔
      ∃ vertex ∈ graph.vertices, node vertex.id = inner := by
  constructor
  · exact represents.exists_of_occurs represents.root
  · rintro ⟨vertex, present, rfl⟩
    exact represents.occurs_of_reaches (represents.reachable vertex present)

/-- The labels are exactly the nodes of the plan. -/
theorem mem_labels (represents : Represents graph firstKey node) {inner : PlanNode} :
    (inner ∈ graph.vertices.map fun vertex => node vertex.id) ↔
      PlanNode.Occurs inner (node graph.root) := by
  rw [represents.occurs_iff, List.mem_map]

/-- The labels have different keys. -/
theorem nodup_keys (represents : Represents graph firstKey node) :
    ((graph.vertices.map fun vertex => node vertex.id).map (·.key)).Nodup := by
  have keys : (graph.vertices.map fun vertex => node vertex.id).map (·.key) =
      graph.ids.map (firstKey + ·) := by
    rw [PlanDag.ids, List.map_map, List.map_map]
    apply List.map_congr_left
    intro vertex member
    exact represents.labels.key_eq (List.mem_map_of_mem member)
  rw [keys]
  exact represents.ordered.nodup_ids.map fun _ _ same => Nat.add_left_cancel same

theorem built (represents : Represents graph firstKey node) :
    (node graph.root).Built := by
  intro inner occurs
  rcases represents.occurs_iff.mp occurs with ⟨vertex, present, rfl⟩
  exact represents.labels.checked present

/-- A node is the only one with its id. -/
theorem pinned (represents : Represents graph firstKey node) {vertex : Vertex}
    (member : vertex ∈ graph.vertices) :
    PlanNode.Pinned (node vertex.id) (node graph.root) := by
  intro inner occurs same
  rcases represents.occurs_iff.mp occurs with ⟨other, present, rfl⟩
  rw [represents.labels.id_eq (List.mem_map_of_mem present),
    represents.labels.id_eq (List.mem_map_of_mem member)] at same
  rw [same]

/-- A node of the plan is the label of its id. -/
theorem eq_label (represents : Represents graph firstKey node) {inner : PlanNode}
    (occurs : PlanNode.Occurs inner (node graph.root)) :
    inner.id ∈ graph.ids ∧ node inner.id = inner := by
  rcases represents.occurs_iff.mp occurs with ⟨vertex, present, rfl⟩
  have listed : vertex.id ∈ graph.ids := List.mem_map_of_mem present
  rw [represents.labels.id_eq listed]
  exact ⟨listed, rfl⟩

/-- Nodes of the plan with one id are one node. -/
theorem eq_of_id (represents : Represents graph firstKey node) {left right : PlanNode}
    (leftOccurs : PlanNode.Occurs left (node graph.root))
    (rightOccurs : PlanNode.Occurs right (node graph.root)) (same : left.id = right.id) :
    left = right := by
  rw [← (represents.eq_label leftOccurs).2, ← (represents.eq_label rightOccurs).2, same]

theorem occurs_label (represents : Represents graph firstKey node) {id : Nat}
    (member : id ∈ graph.ids) : PlanNode.Occurs (node id) (node graph.root) := by
  rcases List.mem_map.mp member with ⟨vertex, present, rfl⟩
  exact represents.occurs_iff.mpr ⟨vertex, present, rfl⟩

/-- The represented plan is valid, as keys go with ids. -/
theorem valid (represents : Represents graph firstKey node) : (node graph.root).Valid := by
  refine ⟨represents.built, ?_⟩
  intro left right leftOccurs rightOccurs same
  rcases represents.occurs_iff.mp leftOccurs with ⟨leftVertex, leftPresent, rfl⟩
  rcases represents.occurs_iff.mp rightOccurs with ⟨rightVertex, rightPresent, rfl⟩
  rw [represents.labels.key_eq (List.mem_map_of_mem leftPresent),
    represents.labels.key_eq (List.mem_map_of_mem rightPresent)] at same
  rw [Nat.add_left_cancel same]

end Represents

end QueryPlan
