import QueryPlan.Proofs.Graph.Labelling
import QueryPlan.Proofs.Plan.Postorder

/-!
# The graph of a plan

Import numbers the nodes of a plan in postorder. The graph that it makes of a
valid plan represents the plan with new keys and ids, whatever the old ids were:
nodes are told apart by their old keys alone.
-/

namespace QueryPlan

open PlanNode (Occurs Settled postorder postorderAll settled_postorder settled_postorderAll)

/-- The vertices of a list of nodes, every node numbered by its place. -/
def places (nodes : List PlanNode) : List (Nat × Vertex) :=
  nodes.mapIdx fun index node =>
    (node.key, .ofInputs index node.operator
      (node.inputs.map fun input => (nodes.map (·.key)).idxOf input.key))

theorem map_key_places (nodes : List PlanNode) :
    (places nodes).map (·.1) = nodes.map (·.key) := by
  apply List.ext_getElem?
  intro index
  simp only [places, List.getElem?_map, List.getElem?_mapIdx]
  cases nodes[index]? <;> rfl

theorem length_places (nodes : List PlanNode) : (places nodes).length = nodes.length :=
  List.length_mapIdx

/-- A further node gets the next number, and the earlier ones keep theirs. -/
theorem places_snoc {nodes : List PlanNode} {node : PlanNode}
    (closed : ∀ other ∈ nodes, ∀ input ∈ other.inputs, input.key ∈ nodes.map (·.key))
    (inputs : ∀ input ∈ node.inputs, input.key ∈ nodes.map (·.key)) :
    places (nodes ++ [node]) = places nodes ++ [(node.key, .ofInputs nodes.length node.operator
      (node.inputs.map fun input => (nodes.map (·.key)).idxOf input.key))] := by
  have stable : ∀ key ∈ nodes.map (·.key),
      ((nodes ++ [node]).map (·.key)).idxOf key = (nodes.map (·.key)).idxOf key := by
    intro key listed
    rw [List.map_append, List.idxOf_append, if_pos listed]
  have lastInputs : (node.inputs.map fun input => ((nodes ++ [node]).map (·.key)).idxOf input.key) =
      node.inputs.map fun input => (nodes.map (·.key)).idxOf input.key := by
    apply List.map_congr_left
    intro input isInput
    exact stable input.key (inputs input isInput)
  have earlier : ∀ other ∈ nodes,
      (other.inputs.map fun input => ((nodes ++ [node]).map (·.key)).idxOf input.key) =
        other.inputs.map fun input => (nodes.map (·.key)).idxOf input.key := by
    intro other member
    apply List.map_congr_left
    intro input isInput
    exact stable input.key (closed other member input isInput)
  have prior : nodes.mapIdx (fun index other =>
        (other.key, Vertex.ofInputs index other.operator
          (other.inputs.map fun input => ((nodes ++ [node]).map (·.key)).idxOf input.key))) =
      places nodes := by
    apply List.mapIdx_eq_mapIdx_iff.mpr
    intro index bound
    rw [earlier _ (List.getElem_mem bound)]
  simp only [places] at prior ⊢
  rw [List.mapIdx_concat, prior, lastInputs]

mutual
/-- Import numbers the nodes in postorder. -/
theorem importNode_places {plan : PlanNode} (coherent : plan.Coherent) {done : List PlanNode}
    (settled : Settled plan done) (part : PlanNode) (inPlan : Occurs part plan) :
    PlanDag.importNode (places done) part = places (postorder done part) := by
  match part with
  | ⟨key, id, operator, inputs, schema⟩ =>
      rw [PlanDag.importNode, postorder, map_key_places]
      by_cases listed : key ∈ done.map (·.key)
      · rw [if_pos (List.contains_iff_mem.mpr listed), if_pos listed]
      · have inputsInPlan : ∀ input ∈ inputs, Occurs input plan :=
          fun input isInput => (Occurs.input isInput).trans inPlan
        obtain ⟨below, _, inputsListed⟩ :=
          settled_postorderAll coherent settled inputs inputsInPlan
        have unlisted : ¬(done.map (·.key)).contains key = true :=
          fun contained => listed (List.contains_iff_mem.mp contained)
        rw [if_neg unlisted, if_neg listed,
          importAll_places coherent settled inputs inputsInPlan,
          places_snoc below.closed inputsListed]
        simp only [map_key_places, length_places]

theorem importAll_places {plan : PlanNode} (coherent : plan.Coherent) {done : List PlanNode}
    (settled : Settled plan done) (parts : List PlanNode)
    (inPlan : ∀ part ∈ parts, Occurs part plan) :
    PlanDag.importAll (places done) parts = places (postorderAll done parts) := by
  match parts with
  | [] => rfl
  | part :: rest =>
      have partInPlan := inPlan part List.mem_cons_self
      have first := (settled_postorder coherent settled part partInPlan).1
      rw [PlanDag.importAll, importNode_places coherent settled part partInPlan,
        importAll_places coherent first rest fun other member =>
          inPlan other (List.mem_cons_of_mem _ member)]
      rfl
end

theorem vertices_ofPlan {plan : PlanNode} (coherent : plan.Coherent) :
    (PlanDag.ofPlan plan).vertices = (places plan.nodes).map (·.2) := by
  have imported : PlanDag.importNode [] plan = places plan.nodes :=
    importNode_places coherent .nil plan .here
  simp only [PlanDag.ofPlan, imported]

mutual
/-- A plan whose nodes are numbered by the places of their keys. -/
def relabel (firstKey : Nat) (keys : List Nat) : PlanNode → PlanNode
  | ⟨key, _, operator, inputs, _⟩ =>
    .assemble (firstKey + keys.idxOf key) (keys.idxOf key) operator
      (relabelAll firstKey keys inputs)

/-- Several plans whose nodes are numbered by the places of their keys. -/
def relabelAll (firstKey : Nat) (keys : List Nat) : List PlanNode → List PlanNode
  | [] => []
  | node :: rest => relabel firstKey keys node :: relabelAll firstKey keys rest
end

section Relabel

variable {firstKey : Nat} {keys : List Nat}

@[simp] theorem relabelAll_eq_map (nodes : List PlanNode) :
    relabelAll firstKey keys nodes = nodes.map (relabel firstKey keys) := by
  induction nodes with
  | nil => rfl
  | cons node rest ih => simp [relabelAll, ih]

theorem relabel_eq (node : PlanNode) :
    relabel firstKey keys node =
      .assemble (firstKey + keys.idxOf node.key) (keys.idxOf node.key) node.operator
        (node.inputs.map (relabel firstKey keys)) := by
  cases node
  simp [relabel]

/-- New numbers keep what nodes derive from their operators and from the same
thing of their inputs. -/
theorem image_relabel {γ : Type} {image : PlanNode → γ} {plan : PlanNode}
    (congruent : ∀ node, Occurs node plan → ∀ key id inputs,
      inputs.map image = node.inputs.map image →
      image (.assemble key id node.operator inputs) = image node) :
    image (relabel firstKey keys plan) = image plan := by
  induction plan using PlanNode.induct with
  | node key id operator inputs schema ih =>
      rw [relabel_eq]
      apply congruent _ .here
      rw [List.map_map]
      apply List.map_congr_left
      intro input member
      exact ih input member fun node occurs => congruent node (.under member occurs)

theorem types_relabel {plan : PlanNode} (built : plan.Built) :
    (relabel firstKey keys plan).types = plan.types := by
  apply image_relabel
  intro node occurs key id inputs same
  exact (PlanNode.build_of_same_types (built node occurs) same).2

end Relabel

/-- What occurs in a renumbered plan is a renumbered node. -/
theorem exists_of_occurs_relabel {firstKey : Nat} {keys : List Nat} {node plan : PlanNode}
    (occurs : Occurs node (relabel firstKey keys plan)) :
    ∃ original, Occurs original plan ∧ relabel firstKey keys original = node := by
  induction plan using PlanNode.induct with
  | node key id operator inputs schema ih =>
      rcases PlanNode.occurs_iff.mp occurs with rfl | ⟨input, isInput, inside⟩
      · exact ⟨_, .here, rfl⟩
      · rw [relabel_eq] at isInput
        rcases List.mem_map.mp isInput with ⟨original, member, rfl⟩
        rcases ih original member inside with ⟨below, belowOccurs, same⟩
        exact ⟨below, .under member belowOccurs, same⟩

section Vertices

/-- The ids of the vertices are their places. -/
theorem map_id_places (nodes : List PlanNode) :
    ((places nodes).map (·.2)).map (·.id) = List.range nodes.length := by
  apply List.ext_getElem
  · simp [length_places]
  · intro index _ _
    simp [places, Vertex.ofInputs]

theorem mem_vertices {nodes : List PlanNode} {vertex : Vertex} :
    vertex ∈ (places nodes).map (·.2) ↔
      ∃ index node, nodes[index]? = some node ∧
        Vertex.ofInputs index node.operator
          (node.inputs.map fun input => (nodes.map (·.key)).idxOf input.key) = vertex := by
  rw [List.mem_map]
  constructor
  · rintro ⟨⟨key, vertex⟩, member, rfl⟩
    rcases List.mem_mapIdx.mp member with ⟨index, bound, equal⟩
    exact ⟨index, nodes[index], List.getElem?_eq_getElem bound, congrArg Prod.snd equal⟩
  · rintro ⟨index, node, found, rfl⟩
    rcases List.getElem?_eq_some_iff.mp found with ⟨bound, rfl⟩
    exact ⟨_, List.mem_mapIdx.mpr ⟨index, bound, rfl⟩, rfl⟩

/-- The vertices of a settled list are ordered. -/
theorem ordered_places {plan : PlanNode} {nodes : List PlanNode} (settled : Settled plan nodes) :
    Ordered [] ((places nodes).map (·.2)) := by
  induction settled with
  | nil => trivial
  | @snoc nodes node before inPlan new inputs ih =>
      rw [places_snoc before.closed inputs, List.map_append, Ordered.append_iff, map_id_places]
      refine ⟨ih, ?_, ?_, ?_, trivial⟩
      · simp [Vertex.ofInputs]
      · simp only [Vertex.inputs_ofInputs]
        exact Vertex.wiredTo_ofInputs _ _ _
      · intro input isInput
        simp only [Vertex.inputs_ofInputs] at isInput
        rcases List.mem_map.mp isInput with ⟨original, member, rfl⟩
        have bound := List.idxOf_lt_length_of_mem (inputs original member)
        simpa using bound

/-- The place of a node whose position is known. -/
theorem idxOf_of_getElem? {plan : PlanNode} {nodes : List PlanNode} (settled : Settled plan nodes)
    {index : Nat} {node : PlanNode} (found : nodes[index]? = some node) :
    (nodes.map (·.key)).idxOf node.key = index := by
  rcases List.getElem?_eq_some_iff.mp found with ⟨bound, rfl⟩
  have unique := settled.nodup_keys.idxOf_getElem index (by rwa [List.length_map])
  rwa [List.getElem_map] at unique

/-- A node is found at the place of its key. -/
theorem getElem?_idxOf {plan : PlanNode} {nodes : List PlanNode} (settled : Settled plan nodes)
    (coherent : plan.Coherent) {node : PlanNode} (inPlan : Occurs node plan)
    (listed : node.key ∈ nodes.map (·.key)) :
    nodes[(nodes.map (·.key)).idxOf node.key]? = some node := by
  have bound := List.idxOf_lt_length_of_mem listed
  rw [List.length_map] at bound
  have key : nodes[(nodes.map (·.key)).idxOf node.key].key = node.key := by
    have found := List.getElem_idxOf (List.idxOf_lt_length_of_mem listed)
    rwa [List.getElem_map] at found
  rw [List.getElem?_eq_getElem bound]
  have occurs := settled.occurs _ (List.getElem_mem bound)
  rw [coherent _ node occurs inPlan key]

/-- The label of the vertex at a place. -/
def placeLabel (firstKey : Nat) (nodes : List PlanNode) (index : Nat) : PlanNode :=
  match nodes[index]? with
  | some node => relabel firstKey (nodes.map (·.key)) node
  | none => .assemble 0 0 (.tableScan "" ⟨[]⟩) []

theorem placeLabel_of_getElem? {firstKey index : Nat} {nodes : List PlanNode} {node : PlanNode}
    (found : nodes[index]? = some node) :
    placeLabel firstKey nodes index = relabel firstKey (nodes.map (·.key)) node := by
  rw [placeLabel, found]

theorem labels_places {firstKey : Nat} {plan : PlanNode} (valid : plan.Valid)
    {nodes : List PlanNode} (settled : Settled plan nodes) :
    Labels firstKey ((places nodes).map (·.2)) (placeLabel firstKey nodes) := by
  intro vertex member
  rcases mem_vertices.mp member with ⟨index, node, found, rfl⟩
  have present := List.mem_of_getElem? found
  have inPlan := settled.occurs node present
  have place := idxOf_of_getElem? settled found
  have inputs : (node.inputs.map fun input => (nodes.map (·.key)).idxOf input.key).map
        (placeLabel firstKey nodes) =
      node.inputs.map (relabel firstKey (nodes.map (·.key))) := by
    rw [List.map_map]
    apply List.map_congr_left
    intro input isInput
    exact placeLabel_of_getElem? (getElem?_idxOf settled valid.coherent
      ((Occurs.input isInput).trans inPlan) (settled.closed node present input isInput))
  have same : (node.inputs.map (relabel firstKey (nodes.map (·.key)))).map PlanNode.types =
      node.inputs.map PlanNode.types := by
    rw [List.map_map]
    apply List.map_congr_left
    intro input isInput
    exact types_relabel ((valid.built.of_occurs inPlan).input isInput)
  rw [Vertex.inputs_ofInputs, inputs]
  change PlanNode.build (firstKey + index) index node.operator _ =
    .ok (placeLabel firstKey nodes index)
  rw [(PlanNode.build_of_same_types (valid.built node inPlan) same).1,
    placeLabel_of_getElem? found, relabel_eq, place]

/-- A path in a plan is a path in its graph. -/
theorem reaches_of_occurs {plan : PlanNode} (coherent : plan.Coherent) {inner outer : PlanNode}
    (inside : Occurs inner outer) (inPlan : Occurs outer plan) :
    Reaches ((places plan.nodes).map (·.2)) ((plan.nodes.map (·.key)).idxOf outer.key)
      ((plan.nodes.map (·.key)).idxOf inner.key) := by
  have settled := PlanNode.settled_nodes coherent
  induction inside with
  | here => exact .refl
  | @under input outer isInput _ ih =>
      have inputInPlan := (Occurs.input isInput).trans inPlan
      have listed := List.mem_map_of_mem (f := fun node : PlanNode => node.key)
        ((PlanNode.mem_nodes coherent).mpr inPlan)
      refine Relation.ReflTransGen.head ⟨_, mem_vertices.mpr ⟨_, outer,
        getElem?_idxOf settled coherent inPlan listed, rfl⟩, rfl, ?_⟩ (ih inputInPlan)
      rw [Vertex.inputs_ofInputs]
      exact List.mem_map.mpr ⟨input, isInput, rfl⟩

end Vertices

section Graph

variable {firstKey : Nat} {plan : PlanNode}

/-- The root of the graph is the place of the root of the plan. -/
theorem getElem?_root (coherent : plan.Coherent) :
    plan.nodes[(PlanDag.ofPlan plan).root]? = some plan := by
  have count : (PlanDag.ofPlan plan).root = (postorderAll [] plan.inputs).length := by
    have vertices := congrArg List.length (vertices_ofPlan coherent)
    rw [List.length_map, length_places, PlanNode.nodes_eq, List.length_append,
      List.length_singleton] at vertices
    change (PlanDag.ofPlan plan).vertices.length - 1 = _
    rw [vertices, Nat.add_sub_cancel]
  rw [count, PlanNode.nodes_eq, List.getElem?_append_right (Nat.le_refl _), Nat.sub_self]
  rfl

/-- The plan that the graph of a valid plan represents. -/
theorem represents_ofPlan (valid : plan.Valid) :
    Represents (PlanDag.ofPlan plan) firstKey (placeLabel firstKey plan.nodes) := by
  have settled := PlanNode.settled_nodes valid.coherent
  have vertices := vertices_ofPlan valid.coherent
  have root := getElem?_root valid.coherent
  have place := idxOf_of_getElem? settled root
  refine ⟨?_, ?_, ?_, ?_⟩
  · rw [vertices]
    exact ordered_places settled
  · rw [vertices]
    exact labels_places valid settled
  · rw [PlanDag.ids, vertices, map_id_places, List.mem_range]
    exact (List.getElem?_eq_some_iff.mp root).1
  · rw [vertices]
    intro vertex member
    rcases mem_vertices.mp member with ⟨index, node, found, rfl⟩
    have inPlan := settled.occurs node (List.mem_of_getElem? found)
    have reached := reaches_of_occurs valid.coherent inPlan .here
    rwa [place, idxOf_of_getElem? settled found] at reached

theorem placeLabel_root (coherent : plan.Coherent) :
    placeLabel firstKey plan.nodes (PlanDag.ofPlan plan).root =
      relabel firstKey (plan.nodes.map (·.key)) plan :=
  placeLabel_of_getElem? (getElem?_root coherent)

/-- All ids are below the number of vertices. -/
theorem fresh_ofPlan (coherent : plan.Coherent) :
    ∀ id ∈ (PlanDag.ofPlan plan).ids, id < (PlanDag.ofPlan plan).size := by
  intro id member
  have vertices := vertices_ofPlan coherent
  rw [PlanDag.ids, vertices, map_id_places, List.mem_range] at member
  rwa [PlanDag.size, vertices, List.length_map, length_places]

/-- There are as many vertices with distinct calls as there are nodes. -/
theorem countP_ofPlan (coherent : plan.Coherent) :
    (PlanDag.ofPlan plan).vertices.countP (·.operator.hasDistinctCall) =
      plan.nodes.countP (·.operator.hasDistinctCall) := by
  have operators : (places plan.nodes).map (·.2.operator) = plan.nodes.map (·.operator) := by
    apply List.ext_getElem?
    intro index
    simp only [places, List.getElem?_map, List.getElem?_mapIdx]
    cases plan.nodes[index]? <;> rfl
  rw [vertices_ofPlan coherent, List.countP_map]
  have counts := congrArg (List.countP Operator.hasDistinctCall) operators
  rw [List.countP_map, List.countP_map] at counts
  exact counts

end Graph

end QueryPlan
