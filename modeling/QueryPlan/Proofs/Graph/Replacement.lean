import QueryPlan.Proofs.Graph.Graft

/-!
# Replacing a vertex

A placed template takes the place of a vertex: its new vertices are put behind
the vertex, all edges to the vertex are redirected to the root of the template,
and what the root no longer reaches is dropped. The graph that is left
represents the plan with the template substituted for the node. The replaced
vertex is gone and all others stay, so the number of vertices with distinct
calls drops by one when the template has no such call.
-/

namespace QueryPlan

open PlanNode Vertex

/-- What is asked of a template that is to replace a vertex of a graph: it has
the types of the vertex, it stands on exactly the inputs of the vertex, and its
root is new, as are the ids from `nextId` on. -/
structure Replaceable (graph : PlanDag) (firstKey : Nat) (node : Nat → PlanNode) (target : Vertex)
    (template : Template) (nextId : Nat) : Prop where
  represents : Represents graph firstKey node
  member : target ∈ graph.vertices
  typed : template.Typed (node target.id).types
  leaves : ∀ leaf, leaf ∈ template.leaves ↔ ∃ input ∈ target.inputs, node input = leaf
  new : template.size ≠ 0
  fresh : ∀ id ∈ graph.ids, id < nextId

namespace Replaceable

variable {graph : PlanDag} {firstKey : Nat} {node : Nat → PlanNode} {target : Vertex}
  {template : Template} {nextId : Nat}

section Definitions

variable (firstKey template nextId target node graph)

/-- The new nodes. -/
abbrev created : List PlanNode := template.created (firstKey + nextId) nextId

/-- The plan that takes the place of the vertex. -/
abbrev replacement : PlanNode := template.place (firstKey + nextId) nextId

/-- All vertices with the new ones, before any is dropped. -/
def spliced : List Vertex :=
  graph.vertices.flatMap (expansion target.id (replacement firstKey template nextId).id
    ((created firstKey template nextId).map Vertex.ofNode))

/-- The root after the replacement. -/
def newRoot : Nat := redirected target.id (replacement firstKey template nextId).id graph.root

end Definitions

section Graft

theorem target_mem (replaceable : Replaceable graph firstKey node target template nextId) :
    target.id ∈ graph.ids :=
  List.mem_map_of_mem replaceable.member

theorem id_label (replaceable : Replaceable graph firstKey node target template nextId) {id : Nat}
    (member : id ∈ graph.ids) : (node id).id = id :=
  replaceable.represents.labels.id_eq member

/-- The new root is not the replaced vertex. -/
theorem replacement_ne (replaceable : Replaceable graph firstKey node target template nextId) :
    (replacement firstKey template nextId).id ≠ target.id := by
  have new := replaceable.new
  have last := (Template.place_of_new new (firstKey + nextId) nextId).2
  have old := replaceable.fresh target.id replaceable.target_mem
  simp only [replacement]
  omega

/-- A template stands on inputs of the node. -/
theorem leaf_input (replaceable : Replaceable graph firstKey node target template nextId)
    {leaf : PlanNode} (member : leaf ∈ template.leaves) : leaf ∈ (node target.id).inputs := by
  obtain ⟨input, reads, rfl⟩ := (replaceable.leaves leaf).mp member
  exact replaceable.represents.labels.mem_inputs replaceable.member reads

/-- The placed template can be grafted. -/
theorem graftable (replaceable : Replaceable graph firstKey node target template nextId) :
    Graftable graph firstKey node target (replacement firstKey template nextId) := by
  have represents := replaceable.represents
  have occurs_leaf {leaf inner : PlanNode} (member : leaf ∈ template.leaves)
      (below : Occurs inner leaf) : Occurs inner (node target.id) :=
    below.trans (.input (replaceable.leaf_input member))
  have inPlan := represents.occurs_label replaceable.target_mem
  have fresh {made : PlanNode} (new : made ∈ created firstKey template nextId) :
      made.id ∉ graph.ids := by
    intro old
    have larger := (Template.id_of_created new).1
    exact absurd larger (Nat.not_le_of_lt (replaceable.fresh made.id old))
  refine ⟨represents, replaceable.member, ?built, Template.types_place replaceable.typed _ _, ?keys,
    ?known, ?unique, replaceable.replacement_ne⟩
  case built =>
    refine Template.built_place replaceable.typed ?_ _ _
    intro leaf member
    exact represents.built.of_occurs ((occurs_leaf member .here).trans inPlan)
  case keys =>
    intro inner occurs
    rcases Template.occurs_place template _ _ occurs with new | ⟨leaf, member, below⟩
    · exact Template.key_of_created template new
    · obtain ⟨listed, same⟩ := represents.eq_label ((occurs_leaf member below).trans inPlan)
      rw [← same, represents.labels.key_eq listed, represents.labels.id_eq listed]
  case known =>
    intro inner occurs placed
    rcases Template.occurs_place template _ _ occurs with new | ⟨leaf, member, below⟩
    · exact absurd placed (fresh new)
    · exact occurs_leaf member below
  case unique =>
    have new {inner : PlanNode} (occurs : Occurs inner (replacement firstKey template nextId))
        (unplaced : inner.id ∉ graph.ids) : inner ∈ created firstKey template nextId := by
      rcases Template.occurs_place template _ _ occurs with new | ⟨leaf, member, below⟩
      · exact new
      · exact absurd (represents.eq_label ((occurs_leaf member below).trans inPlan)).1 unplaced
    have nodup : ((created firstKey template nextId).map (·.id)).Nodup := by
      rw [Template.map_id_created]
      exact List.nodup_range'
    intro left right leftOccurs rightOccurs unplaced same
    exact List.inj_on_of_nodup_map nodup (new leftOccurs unplaced)
      (new rightOccurs (same ▸ unplaced)) same

/-- The new vertices are those of the nodes that were made. -/
theorem map_newNodes (replaceable : Replaceable graph firstKey node target template nextId) :
    (Graftable.newNodes graph (replacement firstKey template nextId)).map Vertex.ofNode =
      (created firstKey template nextId).map Vertex.ofNode := by
  have placed : PlanDag.newVertices graph.ids [] (replacement firstKey template nextId) =
      (created firstKey template nextId).map Vertex.ofNode := by
    refine PlanDag.newVertices_place template ?_ replaceable.fresh (by simp)
    intro leaf member
    obtain ⟨input, reads, rfl⟩ := (replaceable.leaves leaf).mp member
    have listed := replaceable.represents.input_mem replaceable.member reads
    rwa [replaceable.id_label listed]
  rw [← placed, replaceable.graftable.newVertices_graft]

theorem spliced_eq (replaceable : Replaceable graph firstKey node target template nextId) :
    spliced graph firstKey target template nextId =
      Graftable.grafted graph target (replacement firstKey template nextId) := by
  rw [spliced, Graftable.grafted, replaceable.map_newNodes]

/-- The vertices before any is dropped: the replaced one, new ones, and the
others with redirected edges. -/
theorem mem_spliced (replaceable : Replaceable graph firstKey node target template nextId)
    {vertex : Vertex} :
    vertex ∈ spliced graph firstKey target template nextId ↔
      vertex = target ∨ (∃ made ∈ created firstKey template nextId, ofNode made = vertex) ∨
        ∃ old ∈ graph.vertices, old.id ≠ target.id ∧
          old.redirect target.id (replacement firstKey template nextId).id = vertex := by
  rw [replaceable.spliced_eq, replaceable.graftable.mem_grafted, ← List.mem_map, ← List.mem_map,
    replaceable.map_newNodes]

theorem inputs_redirect (replaceable : Replaceable graph firstKey node target template nextId)
    {old : Vertex} (present : old ∈ graph.vertices) :
    (old.redirect target.id (replacement firstKey template nextId).id).inputs =
      old.inputs.map (redirected target.id (replacement firstKey template nextId).id) :=
  replaceable.graftable.inputs_redirect present

theorem ordered_spliced (replaceable : Replaceable graph firstKey node target template nextId) :
    Ordered [] (spliced graph firstKey target template nextId) := by
  rw [replaceable.spliced_eq]
  exact replaceable.graftable.ordered_grafted

end Graft

section Reach

/-- Every vertex but the replaced one is still reached. A path through the
replaced vertex goes through the template instead. -/
theorem reaches_redirected (replaceable : Replaceable graph firstKey node target template nextId)
    {id : Nat} (reaches : Reaches graph.vertices graph.root id) :
    Reaches (spliced graph firstKey target template nextId)
      (newRoot graph firstKey target template nextId)
      (redirected target.id (replacement firstKey template nextId).id id) := by
  have represents := replaceable.represents
  induction reaches with
  | refl => exact .refl
  | @tail reader input _ reads ih =>
      rcases reads with ⟨vertex, present, rfl, isInput⟩
      by_cases same : vertex.id = target.id
      · rcases represents.ordered.eq_of_id present replaceable.member same with rfl
        have differs : input ≠ vertex.id :=
          fun equal => represents.ordered.id_not_input present (equal ▸ isInput)
        have leaf := (replaceable.leaves (node input)).mpr ⟨input, isInput, rfl⟩
        have through := Template.reaches_leaf template
          (fun made new => replaceable.mem_spliced.mpr (.inr (.inl ⟨made, new, rfl⟩))) leaf
        rw [replaceable.id_label (represents.input_mem present isInput)] at through
        rw [redirected, if_pos rfl] at ih
        rw [redirected, if_neg differs]
        exact ih.trans through
      · rw [redirected, if_neg same] at ih
        refine ih.tail ⟨_, replaceable.mem_spliced.mpr (.inr (.inr ⟨vertex, present, same, rfl⟩)),
          rfl, ?_⟩
        rw [replaceable.inputs_redirect present]
        exact List.mem_map_of_mem isInput

theorem redirected_ne (replaceable : Replaceable graph firstKey node target template nextId)
    (id : Nat) :
    redirected target.id (replacement firstKey template nextId).id id ≠ target.id := by
  rw [redirected]
  split
  · exact replaceable.replacement_ne
  · assumption

/-- The replaced vertex is not read by any vertex. -/
theorem target_not_input (replaceable : Replaceable graph firstKey node target template nextId)
    {vertex : Vertex} (member : vertex ∈ spliced graph firstKey target template nextId) :
    target.id ∉ vertex.inputs := by
  have represents := replaceable.represents
  have apart := represents.ordered.id_not_input replaceable.member
  rcases replaceable.mem_spliced.mp member with rfl | ⟨made, new, rfl⟩ | ⟨old, present, _, rfl⟩
  · exact apart
  · intro isInput
    rw [Vertex.inputs_ofNode] at isInput
    rcases List.mem_map.mp isInput with ⟨input, reads, same⟩
    rcases Template.input_of_created template new reads with leaf | inside
    · rcases (replaceable.leaves input).mp leaf with ⟨id, targetReads, rfl⟩
      rw [replaceable.id_label (represents.input_mem replaceable.member targetReads)] at same
      exact apart (same ▸ targetReads)
    · have larger := (Template.id_of_created inside).1
      have smaller := replaceable.fresh target.id replaceable.target_mem
      omega
  · intro isInput
    rw [replaceable.inputs_redirect present] at isInput
    rcases List.mem_map.mp isInput with ⟨id, _, same⟩
    exact replaceable.redirected_ne id same

theorem not_reaches_target (replaceable : Replaceable graph firstKey node target template nextId) :
    ¬Reaches (spliced graph firstKey target template nextId)
      (newRoot graph firstKey target template nextId) target.id := by
  intro reaches
  rcases Relation.ReflTransGen.cases_tail reaches with same | ⟨_, _, vertex, present, _, isInput⟩
  · exact replaceable.redirected_ne graph.root same.symm
  · exact replaceable.target_not_input present isInput

end Reach

section Result

/-- A replacement drops what the new root does not reach. -/
theorem replace_eq (replaceable : Replaceable graph firstKey node target template nextId) :
    graph.replace target.id (replacement firstKey template nextId) =
      PlanDag.prune ⟨spliced graph firstKey target template nextId,
        newRoot graph firstKey target template nextId⟩ := by
  rw [replaceable.graftable.replace_eq, replaceable.spliced_eq, newRoot]

theorem mem_replace (replaceable : Replaceable graph firstKey node target template nextId)
    {vertex : Vertex} :
    vertex ∈ (graph.replace target.id (replacement firstKey template nextId)).vertices ↔
      vertex ∈ spliced graph firstKey target template nextId ∧
        Reaches (spliced graph firstKey target template nextId)
          (newRoot graph firstKey target template nextId) vertex.id := by
  rw [replaceable.replace_eq, PlanDag.mem_prune replaceable.ordered_spliced]

/-- The ids after a replacement are below the next id that is not used. -/
theorem fresh_replace (replaceable : Replaceable graph firstKey node target template nextId) :
    ∀ id ∈ (graph.replace target.id (replacement firstKey template nextId)).ids,
      id < nextId + template.size := by
  intro id member
  rcases List.mem_map.mp member with ⟨vertex, present, rfl⟩
  have smaller : ∀ old ∈ graph.vertices, old.id < nextId + template.size := by
    intro old listed
    have fresh := replaceable.fresh old.id (List.mem_map_of_mem listed)
    omega
  rcases replaceable.mem_spliced.mp (replaceable.mem_replace.mp present).1 with
    rfl | ⟨made, new, rfl⟩ | ⟨old, listed, _, rfl⟩
  · exact smaller _ replaceable.member
  · exact (Template.id_of_created new).2
  · exact smaller old listed

/-- A test that fails on the replaced vertex and on the new ones counts the
others only. -/
theorem countP_spliced (test : Vertex → Bool) {others : List Vertex}
    (perm : (target :: others).Perm graph.vertices)
    (differ : ∀ vertex ∈ others, vertex.id ≠ target.id)
    (new : ∀ made ∈ created firstKey template nextId, test (Vertex.ofNode made) = false)
    (replaced : test target = false) :
    (spliced graph firstKey target template nextId).countP test =
      others.countP fun vertex =>
        test (vertex.redirect target.id (replacement firstKey template nextId).id) := by
  have noneNew : ((created firstKey template nextId).map Vertex.ofNode).countP test = 0 := by
    rw [List.countP_eq_zero]
    intro vertex member
    rcases List.mem_map.mp member with ⟨made, isNew, rfl⟩
    rw [new made isNew]
    exact Bool.noConfusion
  rw [spliced]
  rw [← (perm.flatMap_right _).countP_eq test, List.flatMap_cons, List.countP_append,
    flatMap_expansion differ, expansion, if_pos rfl, List.countP_cons, noneNew, replaced,
    List.countP_map]
  simp [Function.comp_def]

open scoped Classical in
/-- Of the vertices with distinct calls, a replacement without such calls drops
exactly the replaced one. -/
theorem countP_replace (replaceable : Replaceable graph firstKey node target template nextId)
    (distinct : target.operator.hasDistinctCall = true)
    (undistinct : ∀ operator ∈ template.operators, operator.hasDistinctCall = false) :
    (graph.replace target.id (replacement firstKey template nextId)).vertices.countP
        (·.operator.hasDistinctCall) + 1 =
      graph.vertices.countP (·.operator.hasDistinctCall) := by
  rcases replaceable.represents.ordered.exists_others replaceable.member with
    ⟨others, perm, differ⟩
  have counted := countP_spliced (fun vertex => vertex.operator.hasDistinctCall &&
      decide (Reaches (spliced graph firstKey target template nextId)
        (newRoot graph firstKey target template nextId) vertex.id)) perm differ (by
      intro made isNew
      have plain := undistinct made.operator (by
        rw [← Template.map_operator_created template (firstKey + nextId) nextId]
        exact List.mem_map_of_mem isNew)
      rw [Vertex.operator_ofNode, plain, Bool.false_and]) (by
      rw [decide_eq_false replaceable.not_reaches_target, Bool.and_false])
  rw [replaceable.replace_eq, PlanDag.vertices_prune replaceable.ordered_spliced, List.countP_filter,
    counted, ← perm.countP_eq, List.countP_cons, if_pos distinct]
  congr 1
  apply List.countP_congr
  intro vertex present
  have isVertex : vertex ∈ graph.vertices := perm.mem_iff.mp (List.mem_cons_of_mem _ present)
  have reached := replaceable.reaches_redirected
    (replaceable.represents.reachable vertex isVertex)
  rw [redirected, if_neg (differ vertex present)] at reached
  change (vertex.operator.hasDistinctCall && decide (Reaches _ _ vertex.id)) = true ↔ _
  rw [decide_eq_true reached, Bool.and_true]

end Result

end Replaceable

end QueryPlan
