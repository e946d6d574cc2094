import QueryPlan.Proofs.Graph.Labelling

/-!
# Searching and pruning a working graph

Breadth-first search marks a vertex when it enters the queue, so every vertex is
visited at most once; where the root reaches every vertex, all of them are
visited. Pruning goes through the vertices once, from the root down, and keeps
exactly those that the root reaches.
-/

namespace QueryPlan

/-- What is found first is what is erased. -/
theorem perm_cons_eraseP {α : Type} {test : α → Bool} {members : List α} {member : α}
    (found : members.find? test = some member) : (member :: members.eraseP test).Perm members := by
  induction members with
  | nil => simp at found
  | cons first rest ih =>
      by_cases passes : test first = true
      · rw [List.find?_cons_of_pos passes] at found
        rcases Option.some.inj found with rfl
        rw [List.eraseP_cons_of_pos passes]
      · rw [List.find?_cons_of_neg passes] at found
        rw [List.eraseP_cons_of_neg passes]
        exact (List.Perm.swap _ _ _).trans ((ih found).cons first)

/-- The vertices of a graph are any one of them and others with other ids. -/
theorem Ordered.exists_others {below : List Nat} {vertices : List Vertex}
    (ordered : Ordered below vertices) {target : Vertex} (member : target ∈ vertices) :
    ∃ others : List Vertex, (target :: others).Perm vertices ∧
      ∀ vertex ∈ others, vertex.id ≠ target.id := by
  have found : vertices.find? (·.id == target.id) = some target := by
    refine find?_eq_some_of_unique member (beq_self_eq_true target.id) ?_
    intro other present same
    exact ordered.eq_of_id present member (eq_of_beq same)
  have perm := perm_cons_eraseP found
  refine ⟨_, perm, ?_⟩
  have apart := (perm.map (·.id)).nodup_iff.mpr ordered.nodup_ids
  rw [List.map_cons, List.nodup_cons] at apart
  intro vertex present same
  exact apart.1 (List.mem_map.mpr ⟨vertex, present, same⟩)

namespace PlanDag

/-- Marking only splits the unmarked vertices. -/
theorem mark_perm (edges : List Edge) (unmarked : List Vertex) :
    ((mark edges unmarked).1 ++ (mark edges unmarked).2).Perm unmarked := by
  induction edges generalizing unmarked with
  | nil => exact .refl _
  | cons edge edges ih =>
      rw [mark]
      split
      · exact ih unmarked
      · rename_i vertex found
        exact ((ih _).cons vertex).trans (perm_cons_eraseP found)

theorem mem_mark {edges : List Edge} {unmarked : List Vertex} {vertex : Vertex} :
    vertex ∈ (mark edges unmarked).1 ∨ vertex ∈ (mark edges unmarked).2 ↔ vertex ∈ unmarked := by
  rw [← List.mem_append]
  exact (mark_perm edges unmarked).mem_iff

/-- No edge leads to a vertex that stays unmarked. -/
theorem input_ne_of_unmarked {edges : List Edge} {unmarked : List Vertex}
    (nodup : (unmarked.map (·.id)).Nodup) {vertex : Vertex}
    (left : vertex ∈ (mark edges unmarked).2) : ∀ edge ∈ edges, edge.input ≠ vertex.id := by
  induction edges generalizing unmarked with
  | nil => simp
  | cons edge edges ih =>
      have kept : vertex ∈ unmarked := mem_mark.mp (.inr left)
      rw [mark] at left
      split at left
      · rename_i absent
        rw [List.forall_mem_cons]
        refine ⟨?_, ih nodup left⟩
        intro same
        have differs := List.find?_eq_none.mp absent vertex kept
        simp [same] at differs
      · rename_i first found
        have perm := perm_cons_eraseP found
        have apart := ((perm.map (·.id)).nodup_iff.mpr nodup)
        rw [List.map_cons, List.nodup_cons] at apart
        rw [List.forall_mem_cons]
        refine ⟨?_, ih apart.2 left⟩
        intro same
        have remaining : vertex ∈ unmarked.eraseP (·.id == edge.input) := mem_mark.mp (.inr left)
        have firstId : first.id = edge.input := eq_of_beq (List.find?_some found :)
        apply apart.1
        rw [firstId.trans same]
        exact List.mem_map_of_mem remaining

theorem nodup_unmarked {edges : List Edge} {unmarked : List Vertex}
    (nodup : (unmarked.map (·.id)).Nodup) : ((mark edges unmarked).2.map (·.id)).Nodup := by
  have apart := ((mark_perm edges unmarked).map (·.id)).nodup_iff.mpr nodup
  rw [List.map_append] at apart
  exact (List.nodup_append.mp apart).2.1

/-- The search visits the queue, and nothing but the queue and unmarked vertices. -/
theorem search_subset (queue unmarked : List Vertex) :
    (∀ vertex ∈ queue, vertex ∈ search queue unmarked) ∧
      ∀ vertex ∈ search queue unmarked, vertex ∈ queue ∨ vertex ∈ unmarked := by
  fun_induction search queue unmarked with
  | case1 unmarked => simp
  | case2 unmarked vertex queue marked ih =>
      rcases ih with ⟨visited, onlyThese⟩
      constructor
      · intro other member
        rcases List.mem_cons.mp member with rfl | later
        · exact List.mem_cons_self
        · exact List.mem_cons_of_mem _ (visited other (List.mem_append_left _ later))
      · intro other member
        rcases List.mem_cons.mp member with rfl | later
        · exact .inl List.mem_cons_self
        · rcases onlyThese other later with inQueue | unseen
          · rcases List.mem_append.mp inQueue with old | new
            · exact .inl (List.mem_cons_of_mem _ old)
            · exact .inr (mem_mark.mp (.inl new))
          · exact .inr (mem_mark.mp (.inr unseen))

/-- The search visits every unmarked vertex that an edge of a visited vertex
leads to. -/
theorem mem_search_of_edge (queue unmarked : List Vertex)
    (nodup : (unmarked.map (·.id)).Nodup) {vertex reader : Vertex} (listed : vertex ∈ unmarked)
    (visited : reader ∈ search queue unmarked) {edge : Edge} (outgoing : edge ∈ reader.edges)
    (leads : edge.input = vertex.id) : vertex ∈ search queue unmarked := by
  fun_induction search queue unmarked with
  | case1 unmarked => simp at visited
  | case2 unmarked first queue marked ih =>
      apply List.mem_cons_of_mem
      rcases mem_mark.mpr listed with found | left
      · exact (search_subset _ _).1 vertex (List.mem_append_right _ found)
      · -- The first vertex of the queue has no edge to a vertex that stays unmarked.
        rcases List.mem_cons.mp visited with rfl | later
        · exact absurd leads (input_ne_of_unmarked nodup left edge outgoing)
        · exact ih (nodup_unmarked nodup) left later

/-- An edge leads to every vertex that is marked. -/
theorem exists_edge_of_marked {edges : List Edge} {unmarked : List Vertex} {vertex : Vertex}
    (marked : vertex ∈ (mark edges unmarked).1) : ∃ edge ∈ edges, edge.input = vertex.id := by
  induction edges generalizing unmarked with
  | nil => simp [mark] at marked
  | cons edge edges ih =>
      rw [mark] at marked
      split at marked
      · rcases ih marked with ⟨other, member, leads⟩
        exact ⟨other, List.mem_cons_of_mem _ member, leads⟩
      · rename_i first found
        rcases List.mem_cons.mp marked with rfl | later
        · exact ⟨edge, List.mem_cons_self, (eq_of_beq (List.find?_some found :)).symm⟩
        · rcases ih later with ⟨other, member, leads⟩
          exact ⟨other, List.mem_cons_of_mem _ member, leads⟩

/-- A search stays within what is closed under edges. -/
theorem search_closed {visits : Vertex → Prop} {queue unmarked : List Vertex}
    (closed : ∀ reader, visits reader → ∀ vertex ∈ unmarked, ∀ edge ∈ reader.edges,
      edge.input = vertex.id → visits vertex)
    (queued : ∀ vertex ∈ queue, visits vertex) :
    ∀ vertex ∈ search queue unmarked, visits vertex := by
  fun_induction search queue unmarked with
  | case1 unmarked => simp
  | case2 unmarked first queue marked ih =>
      obtain ⟨firstVisited, queueVisited⟩ := List.forall_mem_cons.mp queued
      refine List.forall_mem_cons.mpr ⟨firstVisited, ih ?_ ?_⟩
      · exact fun reader visited vertex left => closed reader visited vertex (mem_mark.mp (.inr left))
      · intro vertex member
        rcases List.mem_append.mp member with old | new
        · exact queueVisited vertex old
        · obtain ⟨edge, outgoing, leads⟩ := exists_edge_of_marked new
          exact closed first firstVisited vertex (mem_mark.mp (.inl new)) edge outgoing leads

/-- The search visits exactly the vertices that the root reaches. -/
theorem mem_breadthFirst_iff {vertices : List Vertex} (ordered : Ordered [] vertices) {root : Nat}
    {vertex : Vertex} : vertex ∈ breadthFirst ⟨vertices, root⟩ ↔
      vertex ∈ vertices ∧ Reaches vertices root vertex.id := by
  rw [breadthFirst]
  constructor
  · refine @search_closed (fun vertex => vertex ∈ vertices ∧ Reaches vertices root vertex.id) _ _
      ?_ ?_ vertex
    · rintro reader ⟨present, reached⟩ vertex left edge outgoing leads
      refine ⟨mem_mark.mp (.inr left), reached.tail ⟨reader, present, rfl, ?_⟩⟩
      rw [← leads]
      exact (ordered.wired present).mem_map_input.mp (List.mem_map_of_mem outgoing)
    · intro vertex marked
      obtain ⟨edge, single, leads⟩ := exists_edge_of_marked marked
      obtain rfl := List.mem_singleton.mp single
      exact ⟨mem_mark.mp (.inl marked), leads ▸ .refl⟩
  · rintro ⟨member, reached⟩
    generalize equal : vertex.id = id at reached
    induction reached generalizing vertex with
    | refl =>
        rcases mem_mark.mpr member with found | left
        · exact (search_subset _ _).1 vertex found
        · have differs := input_ne_of_unmarked ordered.nodup_ids left ⟨0, root⟩ List.mem_cons_self
          exact absurd equal.symm differs
    | tail _ reads ih =>
        rcases reads with ⟨reader, present, same, isInput⟩
        have visited := ih present same
        obtain ⟨edge, outgoing, leads⟩ := List.mem_map.mp
          ((ordered.wired present).mem_map_input.mpr isInput)
        rcases mem_mark.mpr member with found | left
        · exact (search_subset _ _).1 vertex found
        · exact mem_search_of_edge _ _ (nodup_unmarked ordered.nodup_ids) left visited outgoing
            (leads.trans equal.symm)

end PlanDag

namespace Represents

variable {graph : PlanDag} {firstKey : Nat} {node : Nat → PlanNode}

/-- The search visits exactly the vertices of a graph that represents a plan. -/
theorem mem_breadthFirst (represents : Represents graph firstKey node) {vertex : Vertex} :
    vertex ∈ graph.breadthFirst ↔ vertex ∈ graph.vertices := by
  rw [PlanDag.mem_breadthFirst_iff represents.ordered]
  exact and_iff_left_of_imp (represents.reachable vertex)

end Represents

namespace Ordered

/-- Only later vertices lead to a vertex. -/
theorem reaches_cons_iff {below : List Nat} {vertex : Vertex} {rest : List Vertex}
    (ordered : Ordered below (vertex :: rest)) {root id : Nat} (new : id ∉ below) :
    Reaches (vertex :: rest) root id ↔ Reaches rest root id := by
  constructor
  · intro reaches
    induction reaches with
    | refl => exact .refl
    | tail _ reads ih =>
        rcases reads with ⟨reader, present, rfl, isInput⟩
        rcases List.mem_cons.mp present with rfl | later
        · exact absurd (ordered.2.2.1 _ isInput) new
        · have readerNew := ordered.id_not_below present
          exact (ih readerNew).tail ⟨reader, later, rfl, isInput⟩
  · intro reaches
    refine Relation.ReflTransGen.mono ?_ root id reaches
    rintro reader input ⟨found, present, same, isInput⟩
    exact ⟨found, List.mem_cons_of_mem _ present, same, isInput⟩

open scoped Classical in
/-- The vertices that are kept are those that the root reaches, and what is
needed is the root and the inputs of what is kept. -/
theorem foldr_keepNeeded {below : List Nat} {vertices : List Vertex}
    (ordered : Ordered below vertices) (root : Nat) :
    (vertices.foldr PlanDag.keepNeeded ([], [root])).1 =
        vertices.filter (fun vertex => Reaches vertices root vertex.id) ∧
      ∀ id, id ∈ (vertices.foldr PlanDag.keepNeeded ([], [root])).2 ↔
        id = root ∨ ∃ reader ∈ (vertices.foldr PlanDag.keepNeeded ([], [root])).1,
          id ∈ reader.inputs := by
  induction vertices generalizing below with
  | nil => simp
  | cons vertex rest ih =>
      rcases id ordered with ⟨new, wired, inputs, later⟩
      rcases ih later with ⟨kept, needed⟩
      rw [List.foldr_cons]
      generalize rest.foldr PlanDag.keepNeeded ([], [root]) = state at kept needed
      have sameReach : rest.filter (fun other => Reaches (vertex :: rest) root other.id) =
          state.1 := by
        rw [kept]
        apply List.filter_congr
        intro other present
        rw [decide_eq_decide]
        exact ordered.reaches_cons_iff (ordered.id_not_below (List.mem_cons_of_mem _ present))
      have wanted : vertex.id ∈ state.2 ↔ Reaches (vertex :: rest) root vertex.id := by
        rw [ordered.reaches_cons_iff new, needed, kept]
        refine Iff.trans ?_ (Relation.ReflTransGen.cases_tail_iff (Reads rest) root vertex.id).symm
        constructor
        · rintro (same | ⟨reader, member, isInput⟩)
          · exact .inl same
          · rcases List.mem_filter.mp member with ⟨present, reached⟩
            exact .inr ⟨reader.id, of_decide_eq_true reached, reader, present, rfl, isInput⟩
        · rintro (same | ⟨_, reached, reader, present, rfl, isInput⟩)
          · exact .inl same
          · exact .inr ⟨reader, List.mem_filter.mpr ⟨present, decide_eq_true reached⟩, isInput⟩
      rw [PlanDag.keepNeeded]
      by_cases isNeeded : vertex.id ∈ state.2
      · have reached : decide (Reaches (vertex :: rest) root vertex.id) = true :=
          decide_eq_true (wanted.mp isNeeded)
        rw [if_pos (List.contains_iff_mem.mpr isNeeded), List.filter_cons, if_pos reached, sameReach]
        refine ⟨rfl, ?_⟩
        intro id
        simp only [List.mem_append, wired.mem_map_input, needed, List.mem_cons, exists_eq_or_imp]
        exact or_left_comm
      · have unneeded : ¬state.2.contains vertex.id = true :=
          fun contained => isNeeded (List.contains_iff_mem.mp contained)
        have unreached : ¬decide (Reaches (vertex :: rest) root vertex.id) = true :=
          fun reached => isNeeded (wanted.mpr (of_decide_eq_true reached))
        rw [if_neg unneeded, List.filter_cons, if_neg unreached, sameReach]
        exact ⟨rfl, needed⟩

end Ordered

namespace PlanDag

variable {vertices : List Vertex} {root firstKey : Nat} {node : Nat → PlanNode}

open scoped Classical in
/-- Pruning leaves the vertices that the root reaches. -/
theorem vertices_prune (ordered : Ordered [] vertices) (root : Nat) :
    (prune ⟨vertices, root⟩).vertices =
      vertices.filter fun vertex => Reaches vertices root vertex.id :=
  (ordered.foldr_keepNeeded root).1

open scoped Classical in
theorem mem_prune (ordered : Ordered [] vertices) {vertex : Vertex} :
    vertex ∈ (prune ⟨vertices, root⟩).vertices ↔
      vertex ∈ vertices ∧ Reaches vertices root vertex.id := by
  rw [vertices_prune ordered, List.mem_filter, decide_eq_true_iff]

/-- What was reached before anything was dropped is reached afterwards. -/
theorem reaches_prune (ordered : Ordered [] vertices) {id : Nat}
    (reaches : Reaches vertices root id) : Reaches (prune ⟨vertices, root⟩).vertices root id := by
  induction reaches with
  | refl => exact .refl
  | tail before reads ih =>
      rcases reads with ⟨vertex, present, rfl, isInput⟩
      exact ih.tail ⟨vertex, (mem_prune ordered).mpr ⟨present, before⟩, rfl, isInput⟩

open scoped Classical in
/-- Ordered vertices of which the root reaches only labelled ones represent a plan
when the others are dropped. -/
theorem represents_prune (ordered : Ordered [] vertices) (present : root ∈ vertices.map (·.id))
    (labels : ∀ vertex ∈ vertices, Reaches vertices root vertex.id →
      PlanNode.build (firstKey + vertex.id) vertex.id vertex.operator (vertex.inputs.map node) =
        .ok (node vertex.id)) :
    Represents (prune ⟨vertices, root⟩) firstKey node where
  ordered := by
    rw [vertices_prune ordered]
    refine ordered.filter (fun id => decide (Reaches vertices root id)) ?_
    intro vertex member reached input isInput
    rw [decide_eq_true_iff] at reached ⊢
    exact reached.tail ⟨vertex, member, rfl, isInput⟩
  labels := by
    intro vertex member
    obtain ⟨listed, reached⟩ := (mem_prune ordered).mp member
    exact labels vertex listed reached
  root := by
    rcases List.mem_map.mp present with ⟨vertex, listed, same⟩
    refine List.mem_map.mpr ⟨vertex, (mem_prune ordered).mpr ⟨listed, ?_⟩, same⟩
    rw [same]
  reachable := by
    intro vertex member
    exact reaches_prune ordered ((mem_prune ordered).mp member).2

end PlanDag

end QueryPlan
