import QueryPlan.Proofs.Elimination.Template
import QueryPlan.Proofs.Graph.Search

/-!
# Vertices for new nodes

A placed template over nodes that have vertices adds one vertex for each of its
new nodes, in the order in which the nodes were made, and the root of the
template reaches all leaves through them.
-/

namespace QueryPlan

/-- The vertex of a node whose inputs have vertices. -/
def Vertex.ofNode (node : PlanNode) : Vertex :=
  .ofInputs node.id node.operator (node.inputs.map (·.id))

@[simp] theorem Vertex.id_ofNode (node : PlanNode) : (Vertex.ofNode node).id = node.id := rfl

@[simp] theorem Vertex.operator_ofNode (node : PlanNode) :
    (Vertex.ofNode node).operator = node.operator := rfl

@[simp] theorem Vertex.inputs_ofNode (node : PlanNode) :
    (Vertex.ofNode node).inputs = node.inputs.map (·.id) :=
  Vertex.inputs_ofInputs _ _ _

theorem map_id_ofNode (nodes : List PlanNode) :
    (nodes.map Vertex.ofNode).map (·.id) = nodes.map (·.id) := by
  rw [List.map_map]
  rfl

namespace PlanDag

variable {present : List Nat}

mutual
/-- The import of a placed template adds its new nodes, and only these. -/
theorem newVertices_place (template : Template) {key id : Nat} {added : List Vertex}
    (leaves : ∀ leaf ∈ template.leaves, leaf.id ∈ present) (old : ∀ other ∈ present, other < id)
    (earlier : ∀ vertex ∈ added, vertex.id < id) :
    newVertices present added (template.place key id) =
      added ++ (template.created key id).map Vertex.ofNode := by
  match template with
  | .existing leaf =>
      have known : present.contains leaf.id = true :=
        List.contains_iff_mem.mpr (leaves leaf (by simp [Template.leaves]))
      cases leaf
      simp only [Template.place, Template.created, newVertices, List.map_nil, List.append_nil]
      rw [known, Bool.true_or, if_pos rfl]
  | .node operator inputs =>
      have isNew : (present.contains (id + Template.sizeAll inputs) ||
          (added.map (·.id)).contains (id + Template.sizeAll inputs)) = false := by
        rw [Bool.or_eq_false_iff]
        constructor
        · apply Bool.eq_false_iff.mpr
          intro contained
          have smaller := old _ (List.contains_iff_mem.mp contained)
          omega
        · apply Bool.eq_false_iff.mpr
          intro contained
          rcases List.mem_map.mp (List.contains_iff_mem.mp contained) with ⟨vertex, member, same⟩
          have smaller := earlier vertex member
          omega
      simp only [Template.place, PlanNode.assemble, newVertices, isNew, Bool.false_eq_true,
        if_false]
      rw [newVerticesAll_placeAll inputs (by simpa only [Template.leaves] using leaves) old earlier]
      simp [Template.created, Vertex.ofNode, PlanNode.assemble]

theorem newVerticesAll_placeAll (templates : List Template) {key id : Nat} {added : List Vertex}
    (leaves : ∀ leaf ∈ Template.leavesAll templates, leaf.id ∈ present)
    (old : ∀ other ∈ present, other < id) (earlier : ∀ vertex ∈ added, vertex.id < id) :
    newVerticesAll present added (Template.placeAll key id templates) =
      added ++ (Template.createdAll key id templates).map Vertex.ofNode := by
  match templates with
  | [] => simp [newVerticesAll, Template.placeAll, Template.createdAll]
  | template :: rest =>
      simp only [Template.leavesAll, List.mem_append] at leaves
      simp only [Template.placeAll, newVerticesAll]
      rw [newVertices_place template (fun leaf member => leaves leaf (.inl member)) old earlier]
      rw [newVerticesAll_placeAll rest (fun leaf member => leaves leaf (.inr member))]
      · simp [Template.createdAll]
      · intro other member
        have smaller := old other member
        omega
      · intro vertex member
        rcases List.mem_append.mp member with before | new
        · have smaller := earlier vertex before
          omega
        · rcases List.mem_map.mp new with ⟨node, made, rfl⟩
          exact (Template.id_of_created made).2
end

end PlanDag

namespace Template

mutual
/-- A placed template reaches its leaves through the vertices of its new nodes. -/
theorem reaches_leaf (template : Template) {key id : Nat} {vertices : List Vertex}
    (listed : ∀ node ∈ template.created key id, Vertex.ofNode node ∈ vertices) {leaf : PlanNode}
    (member : leaf ∈ template.leaves) :
    Reaches vertices (template.place key id).id leaf.id := by
  match template with
  | .existing other =>
      obtain rfl : leaf = other := by simpa [leaves] using member
      exact .refl
  | .node operator inputs =>
      simp only [created, List.mem_append, List.mem_singleton] at listed
      obtain ⟨placed, isInput, reached⟩ := reaches_leafAll inputs
        (fun node new => listed node (.inl new)) (by simpa only [leaves] using member)
      refine Relation.ReflTransGen.head ⟨_, listed _ (.inr rfl), rfl, ?_⟩ reached
      rw [Vertex.inputs_ofNode]
      exact List.mem_map_of_mem isInput

theorem reaches_leafAll (templates : List Template) {key id : Nat} {vertices : List Vertex}
    (listed : ∀ node ∈ createdAll key id templates, Vertex.ofNode node ∈ vertices)
    {leaf : PlanNode} (member : leaf ∈ leavesAll templates) :
    ∃ placed ∈ placeAll key id templates, Reaches vertices placed.id leaf.id := by
  match templates with
  | [] => simp [leavesAll] at member
  | template :: rest =>
      simp only [createdAll, List.mem_append] at listed
      simp only [leavesAll, List.mem_append] at member
      rcases member with first | later
      · refine ⟨_, List.mem_cons_self, ?_⟩
        exact reaches_leaf template (fun node new => listed node (.inl new)) first
      · obtain ⟨placed, isInput, reached⟩ := reaches_leafAll rest
          (fun node new => listed node (.inr new)) later
        exact ⟨placed, List.mem_cons_of_mem _ isInput, reached⟩
end

mutual
/-- A placed template reaches all of its new nodes. -/
theorem reaches_created (template : Template) {key id : Nat} {vertices : List Vertex}
    (listed : ∀ node ∈ template.created key id, Vertex.ofNode node ∈ vertices) {made : PlanNode}
    (new : made ∈ template.created key id) :
    Reaches vertices (template.place key id).id made.id := by
  match template with
  | .existing _ => simp [created] at new
  | .node operator inputs =>
      simp only [created, List.mem_append, List.mem_singleton] at listed new
      rcases new with below | rfl
      · obtain ⟨placed, isInput, reached⟩ := reaches_createdAll inputs
          (fun node inside => listed node (.inl inside)) below
        refine Relation.ReflTransGen.head ⟨_, listed _ (.inr rfl), rfl, ?_⟩ reached
        rw [Vertex.inputs_ofNode]
        exact List.mem_map_of_mem isInput
      · exact .refl

theorem reaches_createdAll (templates : List Template) {key id : Nat} {vertices : List Vertex}
    (listed : ∀ node ∈ createdAll key id templates, Vertex.ofNode node ∈ vertices)
    {made : PlanNode} (new : made ∈ createdAll key id templates) :
    ∃ placed ∈ placeAll key id templates, Reaches vertices placed.id made.id := by
  match templates with
  | [] => simp [createdAll] at new
  | template :: rest =>
      simp only [createdAll, List.mem_append] at listed new
      rcases new with first | later
      · refine ⟨_, List.mem_cons_self, ?_⟩
        exact reaches_created template (fun node inside => listed node (.inl inside)) first
      · obtain ⟨placed, isInput, reached⟩ := reaches_createdAll rest
          (fun node inside => listed node (.inr inside)) later
        exact ⟨placed, List.mem_cons_of_mem _ isInput, reached⟩
end

end Template

end QueryPlan
