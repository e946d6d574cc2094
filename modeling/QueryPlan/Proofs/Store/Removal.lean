import QueryPlan.Proofs.Store.Search

/-!
# Removing what is not reached

A node is removed together with the arcs from it and to it and with its place in the
index. What the root reaches keeps all its arcs, so the removal of everything else does
to the vertices what dropping the needless ones does in the working graph.
-/

namespace QueryPlan.Store

variable {store : Store}

/-- Both lists of arcs of a slot, and nothing else, are removed with it. -/
theorem members_arcs_removed (store : Store) (slot : Nat) :
    (store.arcs.removeAll ((store.arcs.members.filter (·.2.source == slot) ++
        store.arcs.members.filter (·.2.target == slot)).map (·.1))).members =
      store.arcs.members.filter fun entry => entry.2.source != slot && entry.2.target != slot := by
  rw [Slots.members_removeAll]
  apply List.filter_congr
  intro entry member
  rw [Bool.eq_iff_iff, decide_eq_true_iff, Bool.and_eq_true, bne_iff_ne, bne_iff_ne, List.mem_map]
  constructor
  · intro kept
    have ends (leads : entry.2.source = slot ∨ entry.2.target = slot) : False := by
      refine kept ⟨entry, List.mem_append.mpr ?_, rfl⟩
      exact leads.imp (fun same => List.mem_filter.mpr ⟨member, beq_iff_eq.mpr same⟩)
        fun same => List.mem_filter.mpr ⟨member, beq_iff_eq.mpr same⟩
    exact ⟨fun same => ends (.inl same), fun same => ends (.inr same)⟩
  · rintro ⟨source, target⟩ ⟨other, removed, same⟩
    rcases List.mem_append.mp removed with outgoing | incoming
    · obtain ⟨listed, leads⟩ := List.mem_filter.mp outgoing
      obtain rfl := List.inj_on_of_nodup_map store.arcs.nodup listed member same
      exact source (eq_of_beq leads)
    · obtain ⟨listed, leads⟩ := List.mem_filter.mp incoming
      obtain rfl := List.inj_on_of_nodup_map store.arcs.nodup listed member same
      exact target (eq_of_beq leads)

/-- A removal takes a slot out of the nodes and out of the ends of arcs. -/
theorem members_removeNode (linked : store.Linked) (slot : Nat) :
    (store.removeNode slot).nodes.members = store.nodes.members.filter (·.1 != slot) ∧
      (store.removeNode slot).arcs.members = store.arcs.members.filter fun entry =>
        entry.2.source != slot && entry.2.target != slot := by
  rw [removeNode]
  cases found : store.nodes.get? slot with
  | some entry => exact ⟨rfl, members_arcs_removed store slot⟩
  | none =>
      have absent : slot ∉ store.slots := Slots.get?_eq_none_iff.mp found
      constructor
      · refine (List.filter_eq_self.mpr ?_).symm
        intro member listed
        rw [bne_iff_ne]
        exact fun same => absent (same ▸ List.mem_map_of_mem listed)
      · refine (List.filter_eq_self.mpr ?_).symm
        intro entry listed
        obtain ⟨source, target⟩ := linked.ends entry.2 (List.mem_map_of_mem listed)
        rw [Bool.and_eq_true, bne_iff_ne, bne_iff_ne]
        exact ⟨fun same => absent (same ▸ source), fun same => absent (same ▸ target)⟩

theorem root_removeNode (store : Store) (slot : Nat) :
    (store.removeNode slot).root = store.root := by
  rw [removeNode]
  split <;> rfl

theorem mem_slots_removeNode (linked : store.Linked) {slot other : Nat} :
    other ∈ (store.removeNode slot).slots ↔ other ∈ store.slots ∧ other ≠ slot := by
  rw [mem_slots, mem_slots, (members_removeNode linked slot).1]
  simp [List.mem_filter]

theorem linked_removeNode (linked : store.Linked) (slot : Nat) :
    (store.removeNode slot).Linked where
  ends := by
    intro arc listed
    rw [Slots.contents, (members_removeNode linked slot).2] at listed
    obtain ⟨entry, member, rfl⟩ := List.mem_map.mp listed
    obtain ⟨old, apart⟩ := List.mem_filter.mp member
    rw [Bool.and_eq_true, bne_iff_ne, bne_iff_ne] at apart
    obtain ⟨source, target⟩ := linked.ends entry.2 (List.mem_map_of_mem old)
    exact ⟨(mem_slots_removeNode linked).mpr ⟨source, apart.1⟩,
      (mem_slots_removeNode linked).mpr ⟨target, apart.2⟩⟩
  index := by
    intro id other
    rw [(members_removeNode linked slot).1]
    simp only [List.mem_filter, bne_iff_ne, exists_and_right, ← linked.index]
    rw [removeNode]
    cases found : store.nodes.get? slot with
    | none =>
        have absent : slot ∉ store.slots := Slots.get?_eq_none_iff.mp found
        refine (and_iff_left_of_imp ?_).symm
        intro given same
        exact absent (same ▸ (linked.mem_of_index given).1)
    | some entry =>
        have member := Slots.get?_eq_some_iff.mp found
        have index : store.index entry.id = some slot :=
          (linked.index entry.id slot).mpr ⟨entry.operator, member⟩
        change (if id = entry.id then none else store.index id) = some other ↔ _
        split_ifs with same
        · subst same
          simp [index, eq_comm]
        · refine (and_iff_left_of_imp ?_).symm
          rintro given rfl
          obtain ⟨_, equal⟩ := linked.mem_of_index given
          exact same (equal.symm.trans (idAt_of_mem member))

/-- Removals of several slots, one after the other. -/
theorem removeNodes_spec (linked : store.Linked) (dropped : List Nat) :
    let rest := dropped.foldl removeNode store
    rest.Linked ∧ rest.root = store.root ∧
      rest.nodes.members = store.nodes.members.filter (·.1 ∉ dropped) ∧
      rest.arcs.members = store.arcs.members.filter fun entry =>
        entry.2.source ∉ dropped ∧ entry.2.target ∉ dropped := by
  induction dropped generalizing store with
  | nil => exact ⟨linked, rfl, by simp, by simp⟩
  | cons slot dropped ih =>
      obtain ⟨restLinked, root, nodes, arcs⟩ := ih (linked_removeNode linked slot)
      obtain ⟨firstNodes, firstArcs⟩ := members_removeNode linked slot
      refine ⟨restLinked, root.trans (root_removeNode store slot), ?_, ?_⟩
      · refine nodes.trans ?_
        rw [firstNodes, List.filter_filter]
        apply List.filter_congr
        intro member _
        rw [Bool.eq_iff_iff]
        simp [and_comm]
      · refine arcs.trans ?_
        rw [firstArcs, List.filter_filter]
        apply List.filter_congr
        intro entry _
        rw [Bool.eq_iff_iff]
        simp only [Bool.and_eq_true, decide_eq_true_iff, bne_iff_ne, List.mem_cons, not_or]
        tauto

variable {vertices : List Vertex}

theorem not_mem_unreached {slot : Nat} (taken : slot ∈ store.slots) :
    slot ∉ store.unreached ↔ slot ∈ store.breadthFirst := by
  have opened := store.nodes.split.mem_iff.mp (List.mem_append_right store.nodes.vacant taken)
  simp [unreached, List.mem_filter, List.mem_range.mp opened, taken]

/-- A slot stays when the root reaches it, and with it all its arcs. -/
theorem removeUnreachable_spec (linked : store.Linked) (root : store.root ∈ store.slots)
    (perm : store.vertices.Perm vertices) (ordered : Ordered [] vertices) :
    let rest := store.removeUnreachable
    rest.Linked ∧ rest.root = store.root ∧
      rest.nodes.members = store.nodes.members.filter (·.1 ∈ store.breadthFirst) ∧
      ∀ slot ∈ store.breadthFirst, rest.arcsFrom slot = store.arcsFrom slot := by
  obtain ⟨restLinked, sameRoot, nodes, arcs⟩ := removeNodes_spec linked store.unreached
  refine ⟨restLinked, sameRoot, nodes.trans ?_, ?_⟩
  · apply List.filter_congr
    intro member listed
    rw [decide_eq_decide]
    exact not_mem_unreached (List.mem_map_of_mem listed)
  · intro slot visited
    have reached := (linked.mem_breadthFirst root perm ordered).mp visited
    -- What a reached slot leads to is reached as well, so no arc of it has a removed end.
    have kept (arc : Arc) (leads : arc ∈ store.arcsFrom slot) : arc.target ∉ store.unreached := by
      have target := linked.target_mem leads
      rw [not_mem_unreached target, linked.mem_breadthFirst root perm ordered]
      refine ⟨target, reached.2.tail ?_⟩
      exact (linked.reads_iff perm ordered reached.1 target).mpr (List.mem_map_of_mem leads)
    have contents : store.removeUnreachable.arcs.contents = store.arcs.contents.filter fun arc =>
        arc.source ∉ store.unreached ∧ arc.target ∉ store.unreached := by
      rw [Slots.contents, Slots.contents, List.filter_map]
      exact congrArg _ arcs
    rw [arcsFrom, contents, List.filter_filter, arcsFrom]
    apply List.filter_congr
    intro arc listed
    rw [Bool.eq_iff_iff]
    simp only [Bool.and_eq_true, decide_eq_true_iff, beq_iff_eq]
    refine and_iff_left_of_imp ?_
    rintro rfl
    exact ⟨(not_mem_unreached reached.1).mpr visited,
      kept arc (List.mem_filter.mpr ⟨listed, beq_self_eq_true _⟩)⟩

open scoped Classical in
/-- The vertices that stay are those that the root reaches. -/
theorem implements_removeUnreachable (linked : store.Linked) (root : store.root ∈ store.slots)
    (perm : store.vertices.Perm vertices) (ordered : Ordered [] vertices) :
    store.removeUnreachable.Implements (PlanDag.prune ⟨vertices, store.idAt store.root⟩) := by
  obtain ⟨restLinked, sameRoot, nodes, arcs⟩ := removeUnreachable_spec linked root perm ordered
  have visited {slot : Nat} := @Linked.mem_breadthFirst store linked root vertices perm ordered slot
  have idAt {slot : Nat} (reached : slot ∈ store.breadthFirst) :
      store.removeUnreachable.idAt slot = store.idAt slot := by
    obtain ⟨entry, member⟩ := mem_slots.mp (visited.mp reached).1
    rw [idAt_of_mem member]
    refine idAt_of_mem ?_
    rw [nodes]
    exact List.mem_filter.mpr ⟨member, decide_eq_true reached⟩
  have rootReached : store.root ∈ store.breadthFirst := visited.mpr ⟨root, .refl⟩
  have kept : store.removeUnreachable.vertices =
      store.vertices.filter fun vertex => Reaches vertices (store.idAt store.root) vertex.id := by
    have same : store.nodes.members.filter (fun member =>
          Reaches vertices (store.idAt store.root) (store.vertexAt member.1 member.2).id) =
        store.nodes.members.filter (·.1 ∈ store.breadthFirst) := by
      apply List.filter_congr
      intro member listed
      have taken : member.1 ∈ store.slots := List.mem_map_of_mem listed
      rw [decide_eq_decide, visited, vertexAt, ← idAt_of_mem listed]
      exact (and_iff_right taken).symm
    rw [Store.vertices, nodes, Store.vertices, List.filter_map, Function.comp_def, same]
    apply List.map_congr_left
    intro member listed
    have reached := of_decide_eq_true (List.mem_filter.mp listed).2
    rw [vertexAt, vertexAt, edgesAt, edgesAt, arcs member.1 reached, Vertex.mk.injEq]
    refine ⟨rfl, rfl, List.map_congr_left ?_⟩
    intro arc leads
    have target := linked.target_mem leads
    obtain ⟨taken, path⟩ := visited.mp reached
    rw [idAt (visited.mpr ⟨target, path.tail ((linked.reads_iff perm ordered taken target).mpr
      (List.mem_map_of_mem leads))⟩)]
  refine ⟨restLinked, ?_, ?_, ?_⟩
  · rw [kept, PlanDag.vertices_prune ordered]
    exact perm.filter _
  · rw [sameRoot, mem_slots, nodes]
    obtain ⟨entry, member⟩ := mem_slots.mp root
    exact ⟨entry, List.mem_filter.mpr ⟨member, decide_eq_true rootReached⟩⟩
  · rw [sameRoot, idAt rootReached]
    rfl

end QueryPlan.Store
