import QueryPlan.Proofs.Graph.Creation
import QueryPlan.Proofs.Plan.Postorder
import QueryPlan.Proofs.Plan.Substitution

/-!
# Grafting a plan onto a graph

A plan that is made of nodes below a vertex and of new nodes is put in the place
of this vertex. Vertices for the new nodes are put behind the vertex, and all
edges to the vertex are redirected to the root of the plan, but not those from
the new vertices: the vertex may stay in use below them. What the root does not
reach any more is dropped. The graph that is left represents the plan in which
the graft is substituted for the node of the vertex.
-/

namespace QueryPlan

open PlanNode (Occurs Pinned build build_of_same_types substitute substitute_eq substitute_of_absent
  types_substitute not_occurs_input postorder postorderAll mem_postorder mem_nodes Settled)

/-- The vertices that take the place of a vertex. -/
def expansion (origin replacement : Nat) (added : List Vertex) (vertex : Vertex) : List Vertex :=
  if vertex.id = origin then vertex :: added else [vertex.redirect origin replacement]

/-- Vertices other than the replaced one are only redirected. -/
theorem flatMap_expansion {origin replacement : Nat} {added others : List Vertex}
    (differ : ∀ vertex ∈ others, vertex.id ≠ origin) :
    others.flatMap (expansion origin replacement added) =
      others.map (·.redirect origin replacement) := by
  refine Eq.trans ?_ List.map_eq_flatMap.symm
  rw [List.flatMap_def, List.flatMap_def]
  congr 1
  apply List.map_congr_left
  intro vertex present
  rw [expansion, if_neg (differ vertex present)]

/-- Redirected vertices stay in order when what they read is there. -/
theorem Ordered.redirect {below later : List Nat} {vertices : List Vertex}
    (ordered : Ordered below vertices) {origin replacement : Nat}
    (covers : ∀ id ∈ below, Vertex.redirected origin replacement id ∈ later)
    (apart : ∀ vertex ∈ vertices, vertex.id ∉ later ∧ vertex.id ≠ origin) :
    Ordered later (vertices.map (·.redirect origin replacement)) := by
  induction vertices generalizing below later with
  | nil => trivial
  | cons vertex rest ih =>
      obtain ⟨_, wired, inputs, rest⟩ := ordered
      obtain ⟨⟨new, differs⟩, restApart⟩ := List.forall_mem_cons.mp apart
      have rewired := wired.redirect origin replacement
      have moved := rewired.inputs_eq
      refine ⟨new, by rwa [moved], ?_, ih rest ?_ ?_⟩
      · intro input isInput
        rw [moved] at isInput
        obtain ⟨original, reads, rfl⟩ := List.mem_map.mp isInput
        exact covers original (inputs original reads)
      · rw [List.forall_mem_cons]
        constructor
        · rw [Vertex.redirected, if_neg differs]
          exact List.mem_cons_self
        · exact fun id before => List.mem_cons_of_mem _ (covers id before)
      · intro other member
        obtain ⟨otherNew, otherDiffers⟩ := restApart other member
        refine ⟨?_, otherDiffers⟩
        rw [List.mem_cons, not_or]
        exact ⟨fun same => rest.id_not_below member (same ▸ List.mem_cons_self), otherNew⟩

/-- What is asked of a plan that is to take the place of a vertex other than its
root: it is built, it has the types of the vertex, those of its nodes whose ids
are in the graph are nodes of the vertex, and the others have ids of their own. -/
structure Graftable (graph : PlanDag) (firstKey : Nat) (node : Nat → PlanNode) (target : Vertex)
    (graft : PlanNode) : Prop where
  represents : Represents graph firstKey node
  member : target ∈ graph.vertices
  built : graft.Built
  types : graft.types = (node target.id).types
  keys : ∀ inner, Occurs inner graft → inner.key = firstKey + inner.id
  known : ∀ inner, Occurs inner graft → inner.id ∈ graph.ids → Occurs inner (node target.id)
  unique : ∀ left right, Occurs left graft → Occurs right graft → left.id ∉ graph.ids →
    left.id = right.id → left = right
  apart : graft.id ≠ target.id

namespace Graftable

variable {graph : PlanDag} {firstKey : Nat} {node : Nat → PlanNode} {target : Vertex}
  {graft : PlanNode}

section Definitions

variable (graph firstKey node target graft)

/-- Those of some nodes that have no vertex. -/
def unplaced (nodes : List PlanNode) : List PlanNode := nodes.filter (·.id ∉ graph.ids)

theorem unplaced_snoc (nodes : List PlanNode) (last : PlanNode) :
    unplaced graph (nodes ++ [last]) =
      unplaced graph nodes ++ if last.id ∈ graph.ids then [] else [last] := by
  by_cases placed : last.id ∈ graph.ids <;> simp [unplaced, List.filter_append, placed]

/-- The new nodes of a graft, inputs first. -/
def newNodes : List PlanNode := unplaced graph graft.nodes

/-- All vertices with the new ones, before any is dropped. -/
def grafted : List Vertex :=
  graph.vertices.flatMap (expansion target.id graft.id ((newNodes graph graft).map Vertex.ofNode))

/-- The labels of all vertices after the redirection. -/
def label (id : Nat) : PlanNode :=
  if id = target.id then node target.id
  else ((newNodes graph graft).find? (·.id == id)).getD (substitute target.id graft (node id))

end Definitions

section Nodes

theorem target_mem (graftable : Graftable graph firstKey node target graft) :
    target.id ∈ graph.ids :=
  List.mem_map_of_mem graftable.member

theorem target_occurs (graftable : Graftable graph firstKey node target graft) :
    Occurs (node target.id) (node graph.root) :=
  graftable.represents.occurs_label graftable.target_mem

/-- A node of the graft with a vertex is the label of this vertex. -/
theorem eq_label (graftable : Graftable graph firstKey node target graft) {inner : PlanNode}
    (occurs : Occurs inner graft) (placed : inner.id ∈ graph.ids) : node inner.id = inner :=
  (graftable.represents.eq_label
    ((graftable.known inner occurs placed).trans graftable.target_occurs)).2

/-- Nodes of the graft with one id are one node. -/
theorem eq_of_id (graftable : Graftable graph firstKey node target graft) {left right : PlanNode}
    (leftOccurs : Occurs left graft) (rightOccurs : Occurs right graft)
    (same : left.id = right.id) : left = right := by
  by_cases placed : left.id ∈ graph.ids
  · rw [← graftable.eq_label leftOccurs placed, same,
      graftable.eq_label rightOccurs (same ▸ placed)]
  · exact graftable.unique left right leftOccurs rightOccurs placed same

theorem coherent (graftable : Graftable graph firstKey node target graft) : graft.Coherent := by
  intro left right leftOccurs rightOccurs same
  rw [graftable.keys left leftOccurs, graftable.keys right rightOccurs] at same
  exact graftable.eq_of_id leftOccurs rightOccurs (Nat.add_left_cancel same)

theorem mem_newNodes (graftable : Graftable graph firstKey node target graft) {inner : PlanNode} :
    inner ∈ newNodes graph graft ↔ Occurs inner graft ∧ inner.id ∉ graph.ids := by
  rw [newNodes, unplaced, List.mem_filter, mem_nodes graftable.coherent, decide_eq_true_iff]

/-- The graft itself is new, or lies below the vertex. -/
theorem new_or_placed (graftable : Graftable graph firstKey node target graft) :
    graft ∈ newNodes graph graft ∨ graft.id ∈ graph.ids := by
  by_cases placed : graft.id ∈ graph.ids
  · exact .inr placed
  · exact .inl (graftable.mem_newNodes.mpr ⟨.here, placed⟩)

end Nodes

section Import

variable {present : List Nat} {added : List Vertex}

/-- Nodes that have vertices add none. -/
theorem newVerticesAll_of_present {nodes : List PlanNode}
    (placed : ∀ node ∈ nodes, node.id ∈ present) :
    PlanDag.newVerticesAll present added nodes = added := by
  induction nodes with
  | nil => simp only [PlanDag.newVerticesAll]
  | cons node rest ih =>
      obtain ⟨first, others⟩ := List.forall_mem_cons.mp placed
      rcases node with ⟨_, id, _, _, _⟩
      have known : present.contains id = true := List.contains_iff_mem.mpr first
      rw [PlanDag.newVerticesAll, PlanDag.newVertices, known, Bool.true_or, if_pos rfl, ih others]

mutual
/-- The import of a part of the graft adds vertices for its new nodes. -/
theorem newVertices_eq (graftable : Graftable graph firstKey node target graft) (part : PlanNode)
    (inGraft : Occurs part graft) {done : List PlanNode} (earlier : ∀ other ∈ done, Occurs other graft) :
    PlanDag.newVertices graph.ids ((unplaced graph done).map Vertex.ofNode) part =
      (unplaced graph (postorder done part)).map Vertex.ofNode := by
  match part with
  | ⟨key, id, operator, inputs, schema⟩ =>
      have below := newVerticesAll_eq graftable inputs
        (fun input isInput => (Occurs.input isInput).trans inGraft) earlier
      have doneOf {other : PlanNode} (member : other ∈ unplaced graph done) : other ∈ done :=
        (List.mem_filter.mp member).1
      rw [PlanDag.newVertices, postorder, map_id_ofNode]
      by_cases placed : id ∈ graph.ids
      · -- What is below a node with a vertex has vertices as well.
        have inputsPlaced : ∀ input ∈ inputs, input.id ∈ graph.ids := by
          intro input isInput
          have inside := graftable.known _ inGraft placed
          exact (graftable.represents.eq_label
            (((Occurs.input isInput).trans inside).trans graftable.target_occurs)).1
        rw [newVerticesAll_of_present inputsPlaced] at below
        rw [List.contains_iff_mem.mpr placed, Bool.true_or, if_pos rfl]
        split
        · rfl
        · rw [unplaced_snoc, if_pos placed, List.append_nil]
          exact below
      · have absent : graph.ids.contains id = false := by simpa using placed
        rw [absent, Bool.false_or]
        have same : id ∈ (unplaced graph done).map (·.id) ↔ key ∈ done.map (·.key) := by
          constructor
          · intro member
            obtain ⟨other, old, equal⟩ := List.mem_map.mp member
            have one := graftable.eq_of_id (earlier other (doneOf old)) inGraft equal
            exact List.mem_map.mpr ⟨other, doneOf old, congrArg PlanNode.key one⟩
          · intro member
            obtain ⟨other, old, equal⟩ := List.mem_map.mp member
            obtain rfl := graftable.coherent other _ (earlier other old) inGraft equal
            exact List.mem_map_of_mem (List.mem_filter.mpr ⟨old, decide_eq_true placed⟩)
        by_cases listed : key ∈ done.map (·.key)
        · rw [if_pos (List.contains_iff_mem.mpr (same.mpr listed)), if_pos listed]
        · rw [if_neg (mt (fun found => same.mp (List.contains_iff_mem.mp found)) listed),
            if_neg listed, below, unplaced_snoc, if_neg placed, List.map_append]
          rfl

theorem newVerticesAll_eq (graftable : Graftable graph firstKey node target graft)
    (parts : List PlanNode) (inGraft : ∀ part ∈ parts, Occurs part graft) {done : List PlanNode}
    (earlier : ∀ other ∈ done, Occurs other graft) :
    PlanDag.newVerticesAll graph.ids ((unplaced graph done).map Vertex.ofNode) parts =
      (unplaced graph (postorderAll done parts)).map Vertex.ofNode := by
  match parts with
  | [] => simp only [PlanDag.newVerticesAll, postorderAll]
  | part :: rest =>
      have first := newVertices_eq graftable part (inGraft part List.mem_cons_self) earlier
      rw [PlanDag.newVerticesAll, postorderAll, first]
      apply newVerticesAll_eq graftable rest fun other member => inGraft other (List.mem_cons_of_mem _ member)
      intro other member
      rcases mem_postorder done part other member with old | inside
      · exact earlier other old
      · exact inside.trans (inGraft part List.mem_cons_self)
end

/-- The import of the graft adds vertices for its new nodes. -/
theorem newVertices_graft (graftable : Graftable graph firstKey node target graft) :
    PlanDag.newVertices graph.ids [] graft = (newNodes graph graft).map Vertex.ofNode :=
  graftable.newVertices_eq graft .here (List.forall_mem_nil fun other => Occurs other graft)

end Import

section Labels

theorem label_target : label graph node target graft target.id = node target.id := if_pos rfl

theorem label_new (graftable : Graftable graph firstKey node target graft) {made : PlanNode}
    (new : made ∈ newNodes graph graft) : label graph node target graft made.id = made := by
  obtain ⟨occurs, unplaced⟩ := graftable.mem_newNodes.mp new
  have differs : made.id ≠ target.id := fun same => unplaced (same ▸ graftable.target_mem)
  have found : (newNodes graph graft).find? (·.id == made.id) = some made := by
    refine find?_eq_some_of_unique new (beq_self_eq_true made.id) ?_
    intro other present same
    exact graftable.eq_of_id (graftable.mem_newNodes.mp present).1 occurs (eq_of_beq same)
  rw [label, if_neg differs, found]
  rfl

theorem label_old (graftable : Graftable graph firstKey node target graft) {id : Nat}
    (member : id ∈ graph.ids) (differs : id ≠ target.id) :
    label graph node target graft id = substitute target.id graft (node id) := by
  have absent : (newNodes graph graft).find? (·.id == id) = none := by
    rw [List.find?_eq_none]
    intro made new same
    exact (graftable.mem_newNodes.mp new).2 (eq_of_beq same ▸ member)
  rw [label, if_neg differs, absent]
  rfl

/-- There is nothing to replace below the replaced node. -/
theorem substitute_below (graftable : Graftable graph firstKey node target graft)
    {inner : PlanNode} (below : Occurs inner (node target.id)) (apart : inner ≠ node target.id) :
    substitute target.id graft inner = inner := by
  have represents := graftable.represents
  have inPlan := below.trans graftable.target_occurs
  apply substitute_of_absent (represents.built.of_occurs inPlan)
  intro other inside same
  have isTarget := represents.eq_of_id (inside.trans inPlan) graftable.target_occurs (by
    rw [same, represents.labels.id_eq graftable.target_mem])
  exact apart (below.antisymm (isTarget ▸ inside))

/-- The nodes of the graft are labelled with themselves. -/
theorem label_graft (graftable : Graftable graph firstKey node target graft) {inner : PlanNode}
    (occurs : Occurs inner graft) : label graph node target graft inner.id = inner := by
  by_cases placed : inner.id ∈ graph.ids
  · have known := graftable.eq_label occurs placed
    by_cases same : inner.id = target.id
    · rw [same, label_target, ← same, known]
    · rw [graftable.label_old placed same, known]
      apply graftable.substitute_below (graftable.known inner occurs placed)
      rintro rfl
      exact same (graftable.represents.labels.id_eq graftable.target_mem)
  · exact graftable.label_new (graftable.mem_newNodes.mpr ⟨occurs, placed⟩)

/-- A redirected edge leads to the label with the graft in it. -/
theorem label_redirected (graftable : Graftable graph firstKey node target graft) {id : Nat}
    (member : id ∈ graph.ids) :
    label graph node target graft (Vertex.redirected target.id graft.id id) =
      substitute target.id graft (node id) := by
  rw [Vertex.redirected]
  split
  · rename_i same
    rw [graftable.label_graft .here, substitute_eq,
      if_pos ((graftable.represents.labels.id_eq member).trans same)]
  · rename_i differs
    exact graftable.label_old member differs

/-- The vertices before any is dropped: the replaced one, new ones, and the
others with redirected edges. -/
theorem mem_grafted (graftable : Graftable graph firstKey node target graft) {vertex : Vertex} :
    vertex ∈ grafted graph target graft ↔
      vertex = target ∨ (∃ made ∈ newNodes graph graft, Vertex.ofNode made = vertex) ∨
        ∃ old ∈ graph.vertices, old.id ≠ target.id ∧ old.redirect target.id graft.id = vertex := by
  have ordered := graftable.represents.ordered
  rw [grafted, List.mem_flatMap]
  constructor
  · rintro ⟨old, present, expanded⟩
    rw [expansion] at expanded
    split at expanded
    · rename_i same
      rcases List.mem_cons.mp expanded with rfl | new
      · exact .inl (ordered.eq_of_id present graftable.member same)
      · exact .inr (.inl (List.mem_map.mp new))
    · rename_i differs
      exact .inr (.inr ⟨old, present, differs, (List.mem_singleton.mp expanded).symm⟩)
  · rintro (rfl | ⟨made, new, rfl⟩ | ⟨old, present, differs, rfl⟩)
    · refine ⟨vertex, graftable.member, ?_⟩
      rw [expansion, if_pos rfl]
      exact List.mem_cons_self
    · refine ⟨target, graftable.member, ?_⟩
      rw [expansion, if_pos rfl]
      exact List.mem_cons_of_mem _ (List.mem_map_of_mem new)
    · refine ⟨old, present, ?_⟩
      rw [expansion, if_neg differs]
      exact List.mem_singleton_self _

theorem inputs_redirect (graftable : Graftable graph firstKey node target graft) {old : Vertex}
    (present : old ∈ graph.vertices) :
    (old.redirect target.id graft.id).inputs =
      old.inputs.map (Vertex.redirected target.id graft.id) :=
  ((graftable.represents.ordered.wired present).redirect _ _).inputs_eq

/-- A substitution into the inputs of a node keeps their types. -/
theorem types_substituted (graftable : Graftable graph firstKey node target graft) {old : Vertex}
    (present : old ∈ graph.vertices) :
    ((node old.id).inputs.map (substitute target.id graft)).map PlanNode.types =
      (node old.id).inputs.map PlanNode.types := by
  have represents := graftable.represents
  have occurs := represents.occurs_label (List.mem_map_of_mem present)
  rw [List.map_map]
  apply List.map_congr_left
  intro input isInput
  have inPlan := (Occurs.input isInput).trans occurs
  have pinned : Pinned (node target.id) input := fun inner inside =>
    represents.pinned graftable.member inner (inside.trans inPlan)
  have types := types_substitute (represents.built.of_occurs inPlan) pinned graftable.types
  rwa [represents.labels.id_eq graftable.target_mem] at types

/-- A vertex that is not replaced is labelled again. -/
theorem label_redirect (graftable : Graftable graph firstKey node target graft) {old : Vertex}
    (present : old ∈ graph.vertices) (apart : old.id ≠ target.id) :
    build (firstKey + old.id) old.id old.operator
        ((old.redirect target.id graft.id).inputs.map (label graph node target graft)) =
      .ok (label graph node target graft old.id) := by
  have represents := graftable.represents
  have listed : old.id ∈ graph.ids := List.mem_map_of_mem present
  have images : (old.redirect target.id graft.id).inputs.map (label graph node target graft) =
      (node old.id).inputs.map (substitute target.id graft) := by
    rw [graftable.inputs_redirect present, represents.labels.inputs_eq present, List.map_map,
      List.map_map]
    apply List.map_congr_left
    intro input isInput
    exact graftable.label_redirected (represents.input_mem present isInput)
  have rebuilt := (@build_of_same_types (firstKey + old.id) old.id _ _
    (represents.labels.checked present) (graftable.types_substituted present)).1
  rw [represents.labels.operator_eq present] at rebuilt
  rw [images, rebuilt, graftable.label_old listed apart, substitute_eq,
    represents.labels.id_eq listed, if_neg apart, represents.labels.key_eq listed,
    represents.labels.operator_eq present]

/-- The vertices before any is dropped are labelled. -/
theorem labels (graftable : Graftable graph firstKey node target graft) :
    Labels firstKey (grafted graph target graft) (label graph node target graft) := by
  intro vertex member
  rcases graftable.mem_grafted.mp member with rfl | ⟨made, new, rfl⟩ | ⟨old, present, apart, rfl⟩
  · have inputs : vertex.inputs.map (label graph node vertex graft) = vertex.inputs.map node := by
      apply List.map_congr_left
      intro input reads
      have listed := graftable.represents.input_mem graftable.member reads
      have isInput := graftable.represents.labels.mem_inputs graftable.member reads
      have differs : input ≠ vertex.id := fun same =>
        graftable.represents.ordered.id_not_input graftable.member (same ▸ reads)
      rw [graftable.label_old listed differs]
      exact graftable.substitute_below (.input isInput)
        fun same => not_occurs_input isInput (same ▸ .here)
    rw [inputs, label_target]
    exact graftable.represents.labels vertex graftable.member
  · have occurs := (graftable.mem_newNodes.mp new).1
    have inputs : (made.inputs.map (·.id)).map (label graph node target graft) = made.inputs := by
      rw [List.map_map]
      apply map_eq_self
      intro input isInput
      exact graftable.label_graft ((Occurs.input isInput).trans occurs)
    rw [Vertex.inputs_ofNode, inputs, Vertex.id_ofNode, Vertex.operator_ofNode,
      graftable.label_new new, ← graftable.keys made occurs]
    exact graftable.built made occurs
  · exact graftable.label_redirect present apart

end Labels

section Order

/-- What occurs below a vertex has vertices before it. -/
theorem mem_of_below (graftable : Graftable graph firstKey node target graft)
    {before after : List Vertex} (split : graph.vertices = before ++ target :: after)
    {inner : PlanNode} (below : Occurs inner (node target.id)) :
    inner.id ∈ target.id :: (before.map (·.id)).reverse := by
  have represents := graftable.represents
  have ordered := represents.ordered
  rw [split, Ordered.append_iff, List.append_nil] at ordered
  obtain ⟨first, _, _, inputs, _⟩ := ordered
  have present {vertex : Vertex} (member : vertex ∈ before ∨ vertex = target) :
      vertex ∈ graph.vertices := by
    rw [split]
    rcases member with early | rfl <;> simp [*]
  have found {id : Nat} (member : id ∈ before.map (·.id)) :
      ∃ vertex, (vertex ∈ before ∨ vertex = target) ∧ node vertex.id = node id := by
    obtain ⟨vertex, early, rfl⟩ := List.mem_map.mp member
    exact ⟨vertex, .inl early, rfl⟩
  have closed : ∃ vertex, (vertex ∈ before ∨ vertex = target) ∧ node vertex.id = inner := by
    refine @Occurs.closed (fun inner =>
      ∃ vertex, (vertex ∈ before ∨ vertex = target) ∧ node vertex.id = inner) ?_ inner _ below
      ⟨target, .inr rfl, rfl⟩
    rintro _ ⟨vertex, member, rfl⟩ input isInput
    rw [represents.labels.inputs_eq (present member)] at isInput
    obtain ⟨id, reads, rfl⟩ := List.mem_map.mp isInput
    rcases member with early | rfl
    · rcases first.input_mem early reads with none | listed
      · exact absurd none List.not_mem_nil
      · exact found listed
    · exact found (List.mem_reverse.mp (inputs id reads))
  obtain ⟨vertex, member, rfl⟩ := closed
  rw [represents.labels.id_eq (List.mem_map_of_mem (present member))]
  rcases member with early | rfl
  · exact List.mem_cons_of_mem _ (List.mem_reverse.mpr (List.mem_map_of_mem early))
  · exact List.mem_cons_self

/-- New vertices are in order above the vertices of the graph that they need. -/
theorem ordered_unplaced (graftable : Graftable graph firstKey node target graft)
    {nodes : List PlanNode} (settled : Settled graft nodes) {below : List Nat}
    (placed : ∀ inner, Occurs inner graft → inner.id ∈ graph.ids → inner.id ∈ below)
    (old : ∀ id ∈ below, id ∈ graph.ids) :
    Ordered below ((unplaced graph nodes).map Vertex.ofNode) := by
  induction settled with
  | nil => trivial
  | @snoc nodes last before inGraft new inputs ih =>
      rw [unplaced_snoc]
      split
      · rwa [List.append_nil]
      · rename_i isNew
        rw [List.map_append, Ordered.append_iff, map_id_ofNode]
        refine ⟨ih, ?_, ?_, ?_, trivial⟩
        · rw [List.mem_append, List.mem_reverse, not_or]
          refine ⟨?_, fun early => isNew (old _ early)⟩
          intro again
          obtain ⟨other, listed, same⟩ := List.mem_map.mp again
          have earlier := (List.mem_filter.mp listed).1
          obtain rfl := graftable.eq_of_id (before.occurs other earlier) inGraft same
          exact new (List.mem_map_of_mem earlier)
        · rw [Vertex.inputs_ofNode]
          exact Vertex.wiredTo_ofInputs _ _ _
        · intro id reads
          rw [Vertex.inputs_ofNode] at reads
          obtain ⟨input, isInput, rfl⟩ := List.mem_map.mp reads
          have inside := (Occurs.input isInput).trans inGraft
          rw [List.mem_append, List.mem_reverse]
          by_cases known : input.id ∈ graph.ids
          · exact .inr (placed input inside known)
          · have listed := before.mem_of_key graftable.coherent inside (inputs input isInput)
            exact .inl (List.mem_map_of_mem (List.mem_filter.mpr ⟨listed, decide_eq_true known⟩))

theorem ordered_grafted (graftable : Graftable graph firstKey node target graft) :
    Ordered [] (grafted graph target graft) := by
  have ordered := graftable.represents.ordered
  obtain ⟨before, after, split⟩ := List.append_of_mem graftable.member
  have below {inner : PlanNode} (inside : Occurs inner (node target.id)) :=
    graftable.mem_of_below split inside
  have placed {inner : PlanNode} (inside : Occurs inner graft) (known : inner.id ∈ graph.ids) :=
    below (graftable.known inner inside known)
  rw [split, Ordered.append_iff, List.append_nil] at ordered
  obtain ⟨first, new, wired, inputs, rest⟩ := ordered
  have listed {vertex : Vertex} (member : vertex ∈ before ++ target :: after) :
      vertex.id ∈ graph.ids := by
    rw [PlanDag.ids, split]
    exact List.mem_map_of_mem member
  have earlier : ∀ vertex ∈ before, vertex.id ≠ target.id := by
    intro vertex member same
    exact new (List.mem_reverse.mpr (same ▸ List.mem_map_of_mem member))
  have expanded : grafted graph target graft =
      before.map (·.redirect target.id graft.id) ++
        (target :: (newNodes graph graft).map Vertex.ofNode ++
          after.map (·.redirect target.id graft.id)) := by
    have later : ∀ vertex ∈ after, vertex.id ≠ target.id := by
      intro vertex member same
      exact rest.id_not_below member (same ▸ List.mem_cons_self)
    rw [grafted, split, List.flatMap_append, List.flatMap_cons, flatMap_expansion earlier,
      flatMap_expansion later, expansion, if_pos rfl]
  have ids : (before.map (·.redirect target.id graft.id)).map (·.id) = before.map (·.id) := by
    rw [List.map_map]
    rfl
  rw [expanded, Ordered.append_iff, ids, List.append_nil, Ordered.append_iff]
  refine ⟨first.redirect (by simp) fun vertex member => ⟨List.not_mem_nil, earlier vertex member⟩,
    ⟨new, wired, inputs, ?_⟩, ?_⟩
  · refine graftable.ordered_unplaced (PlanNode.settled_nodes graftable.coherent)
      (fun inner inside known => placed inside known) ?_
    rw [List.forall_mem_cons]
    refine ⟨graftable.target_mem, ?_⟩
    intro id member
    obtain ⟨vertex, early, rfl⟩ := List.mem_map.mp (List.mem_reverse.mp member)
    exact listed (List.mem_append_left _ early)
  · rw [List.map_cons, List.reverse_cons, List.append_assoc, List.singleton_append, map_id_ofNode]
    refine rest.redirect ?_ ?_
    · rw [List.forall_mem_cons]
      constructor
      · rw [Vertex.redirected, if_pos rfl, List.mem_append, List.mem_reverse]
        exact graftable.new_or_placed.imp List.mem_map_of_mem (placed .here)
      · intro id member
        have differs : id ≠ target.id := fun same => new (same ▸ member)
        rw [Vertex.redirected, if_neg differs]
        exact List.mem_append_right _ (List.mem_cons_of_mem _ member)
    · intro vertex member
      have apart := rest.id_not_below member
      refine ⟨?_, fun same => apart (same ▸ List.mem_cons_self)⟩
      rw [List.mem_append, List.mem_reverse, not_or]
      refine ⟨?_, apart⟩
      intro again
      obtain ⟨made, isNew, same⟩ := List.mem_map.mp again
      apply (graftable.mem_newNodes.mp isNew).2
      rw [same]
      exact listed (by simp [member])

end Order

section Result

theorem newRoot_mem (graftable : Graftable graph firstKey node target graft) :
    Vertex.redirected target.id graft.id graph.root ∈ (grafted graph target graft).map (·.id) := by
  have kept {id : Nat} (member : id ∈ graph.ids) (differs : id ≠ target.id) :
      id ∈ (grafted graph target graft).map (·.id) := by
    obtain ⟨vertex, present, rfl⟩ := List.mem_map.mp member
    exact List.mem_map.mpr
      ⟨_, graftable.mem_grafted.mpr (.inr (.inr ⟨vertex, present, differs, rfl⟩)), rfl⟩
  rw [Vertex.redirected]
  split
  · rcases graftable.new_or_placed with new | placed
    · exact List.mem_map.mpr
        ⟨_, graftable.mem_grafted.mpr (.inr (.inl ⟨graft, new, rfl⟩)), rfl⟩
    · exact kept placed graftable.apart
  · rename_i differs
    exact kept graftable.represents.root differs

/-- A replacement redirects the edges and drops what is not reached. -/
theorem replace_eq (graftable : Graftable graph firstKey node target graft) :
    graph.replace target.id graft =
      PlanDag.prune ⟨grafted graph target graft, Vertex.redirected target.id graft.id graph.root⟩ := by
  rw [PlanDag.replace, if_neg graftable.apart, graftable.newVertices_graft]
  rfl

/-- The graph after a replacement represents a plan again. -/
theorem represents_replace (graftable : Graftable graph firstKey node target graft) :
    Represents (graph.replace target.id graft) firstKey (label graph node target graft) := by
  rw [graftable.replace_eq]
  exact PlanDag.represents_prune graftable.ordered_grafted graftable.newRoot_mem
    fun vertex member _ => graftable.labels vertex member

/-- The plan after a replacement has the graft in the place of the node. -/
theorem plan_replace (graftable : Graftable graph firstKey node target graft) :
    label graph node target graft (graph.replace target.id graft).root =
      substitute target.id graft (node graph.root) := by
  rw [graftable.replace_eq]
  exact graftable.label_redirected graftable.represents.root

end Result

end Graftable

end QueryPlan
