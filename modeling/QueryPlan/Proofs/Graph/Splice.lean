import QueryPlan.Proofs.Graph.Replacement

/-!
# What a replacement leaves

A replacement drops no vertex but the replaced one, since the template stands on
all inputs of that vertex, and it adds one vertex for every new node. So the ids
of the graph afterwards are known exactly.
-/

namespace QueryPlan

open PlanNode Vertex

namespace Replaceable

variable {graph : PlanDag} {firstKey : Nat} {node : Nat → PlanNode} {target : Vertex}
  {template : Template} {nextId : Nat}

/-- The new root reaches everything but the replaced vertex. -/
theorem reaches_spliced (replaceable : Replaceable graph firstKey node target template nextId)
    {vertex : Vertex} (member : vertex ∈ spliced graph firstKey target template nextId)
    (apart : vertex.id ≠ target.id) :
    Reaches (spliced graph firstKey target template nextId)
      (newRoot graph firstKey target template nextId) vertex.id := by
  have reachable := replaceable.represents.reachable
  rcases replaceable.mem_spliced.mp member with
    rfl | ⟨made, new, rfl⟩ | ⟨old, present, differs, rfl⟩
  · exact absurd rfl apart
  · have root := replaceable.reaches_redirected (reachable target replaceable.member)
    rw [redirected, if_pos rfl] at root
    refine root.trans (Template.reaches_created template ?_ new)
    intro other isNew
    exact replaceable.mem_spliced.mpr (.inr (.inl ⟨other, isNew, rfl⟩))
  · have reached := replaceable.reaches_redirected (reachable old present)
    rw [redirected, if_neg differs] at reached
    exact reached

/-- The vertices after a replacement are the new ones and all others but the
replaced one, with redirected edges. -/
theorem mem_vertices_replace (replaceable : Replaceable graph firstKey node target template nextId)
    {vertex : Vertex} :
    vertex ∈ (graph.replace target.id (replacement firstKey template nextId)).vertices ↔
      (∃ made ∈ created firstKey template nextId, ofNode made = vertex) ∨
        ∃ old ∈ graph.vertices, old.id ≠ target.id ∧
          old.redirect target.id (replacement firstKey template nextId).id = vertex := by
  rw [replaceable.mem_replace]
  constructor
  · rintro ⟨present, reached⟩
    rcases replaceable.mem_spliced.mp present with rfl | left
    · exact absurd reached replaceable.not_reaches_target
    · exact left
  · intro left
    have present := replaceable.mem_spliced.mpr (.inr left)
    refine ⟨present, replaceable.reaches_spliced present ?_⟩
    rcases left with ⟨made, new, rfl⟩ | ⟨old, _, apart, rfl⟩
    · have larger := (Template.id_of_created new).1
      have smaller := replaceable.fresh target.id replaceable.target_mem
      rw [id_ofNode]
      omega
    · exact apart

/-- The ids after a replacement: one id is gone, and the next ones are used. -/
theorem mem_ids_replace (replaceable : Replaceable graph firstKey node target template nextId)
    {id : Nat} :
    id ∈ (graph.replace target.id (replacement firstKey template nextId)).ids ↔
      id ∈ List.range' nextId template.size ∨ id ∈ graph.ids ∧ id ≠ target.id := by
  rw [← Template.map_id_created template (firstKey + nextId) nextId]
  simp only [PlanDag.ids, List.mem_map, replaceable.mem_vertices_replace]
  constructor
  · rintro ⟨_, ⟨made, new, rfl⟩ | ⟨old, present, apart, rfl⟩, rfl⟩
    · exact .inl ⟨made, new, rfl⟩
    · exact .inr ⟨⟨old, present, rfl⟩, apart⟩
  · rintro (⟨made, new, rfl⟩ | ⟨⟨old, present, rfl⟩, apart⟩)
    · exact ⟨ofNode made, .inl ⟨made, new, rfl⟩, rfl⟩
    · exact ⟨_, .inr ⟨old, present, apart, rfl⟩, rfl⟩

/-- A replacement exchanges one vertex for as many as there are new nodes. -/
theorem size_replace (replaceable : Replaceable graph firstKey node target template nextId) :
    (graph.replace target.id (replacement firstKey template nextId)).size + 1 =
      graph.size + template.size := by
  have before := replaceable.represents.ordered.nodup_ids
  have after := replaceable.graftable.represents_replace.ordered.nodup_ids
  have exchanged : (target.id ::
      (graph.replace target.id (replacement firstKey template nextId)).ids).Perm
        (List.range' nextId template.size ++ graph.ids) := by
    rw [List.perm_ext_iff_of_nodup]
    · intro id
      rw [List.mem_cons, List.mem_append, replaceable.mem_ids_replace]
      have listed := replaceable.target_mem
      by_cases same : id = target.id
      · simp [same, listed]
      · simp [same]
    · rw [List.nodup_cons]
      refine ⟨?_, after⟩
      intro again
      rcases replaceable.mem_ids_replace.mp again with new | old
      · have larger := (List.mem_range'_1.mp new).1
        have smaller := replaceable.fresh target.id replaceable.target_mem
        omega
      · exact old.2 rfl
    · refine List.Nodup.append List.nodup_range' before ?_
      intro id new old
      have larger := (List.mem_range'_1.mp new).1
      have smaller := replaceable.fresh id old
      omega
  have lengths := exchanged.length_eq
  simp only [List.length_cons, List.length_append, List.length_range', PlanDag.ids,
    List.length_map] at lengths
  rw [PlanDag.size, PlanDag.size, lengths, Nat.add_comm]

end Replaceable

end QueryPlan
