import Mathlib.Data.List.Nodup
import QueryPlan.Node.Traversal
import QueryPlan.Proofs.Plan.Validity

/-!
# Breadth-first order lists every node once

Where nodes with one key are one node, the breadth-first order of a plan holds
exactly the nodes that occur in the plan, each once. It is therefore a
rearrangement of any other such list.
-/

namespace QueryPlan.PlanNode

/-- What is unseen is new and has no two nodes with one key. -/
theorem unseen_new (seen : List Nat) (nodes : List PlanNode) :
    ((unseen seen nodes).map (·.key)).Nodup ∧ ∀ node ∈ unseen seen nodes, node.key ∉ seen := by
  induction nodes generalizing seen with
  | nil => simp [unseen]
  | cons first rest ih =>
      rw [unseen]
      split
      · exact ih seen
      · rename_i new
        rcases ih (first.key :: seen) with ⟨nodup, fresh⟩
        constructor
        · rw [List.map_cons, List.nodup_cons]
          refine ⟨?_, nodup⟩
          intro again
          rcases List.mem_map.mp again with ⟨other, member, same⟩
          exact fresh other member (by simp [same])
        · rw [List.forall_mem_cons]
          refine ⟨new, ?_⟩
          intro node member old
          exact fresh node member (List.mem_cons_of_mem _ old)

/-- Every node is seen, or there is an unseen one with its key. -/
theorem seen_or_unseen (seen : List Nat) (nodes : List PlanNode) :
    ∀ node ∈ nodes, node.key ∈ seen ∨ node.key ∈ (unseen seen nodes).map (·.key) := by
  induction nodes generalizing seen with
  | nil => simp
  | cons first rest ih =>
      intro node member
      rw [unseen]
      split
      · rename_i old
        rcases List.mem_cons.mp member with rfl | later
        · exact .inl old
        · exact ih seen node later
      · rcases List.mem_cons.mp member with rfl | later
        · exact .inr (by simp)
        · rcases ih (first.key :: seen) node later with old | new
          · rcases List.mem_cons.mp old with same | older
            · exact .inr (by simp [same])
            · exact .inl older
          · exact .inr (List.mem_cons_of_mem _ new)

theorem level_subset (seen : List Nat) (level : List PlanNode) :
    ∀ node ∈ level, node ∈ fromLevel seen level := by
  intro node member
  rw [fromLevel, if_neg (List.ne_nil_of_mem member)]
  exact List.mem_append_left _ member

/-- What is listed occurs in a node of the first level. -/
theorem occurs_of_mem_fromLevel (seen : List Nat) (level : List PlanNode) :
    ∀ node ∈ fromLevel seen level, ∃ root ∈ level, Occurs node root := by
  fun_induction fromLevel seen level with
  | case1 seen => simp
  | case2 seen level nonempty next ih =>
      intro node member
      rcases List.mem_append.mp member with here | deeper
      · exact ⟨node, here, .here⟩
      · rcases ih node deeper with ⟨root, isNext, inside⟩
        obtain ⟨parent, isParent, isInput⟩ :=
          List.mem_flatMap.mp ((unseen_sublist seen _).subset isNext)
        exact ⟨parent, isParent, .trans inside (.input isInput)⟩

/-- What is listed is in the first level or new. -/
theorem new_of_mem_fromLevel (seen : List Nat) (level : List PlanNode) :
    ∀ node ∈ fromLevel seen level, node ∈ level ∨ node.key ∉ seen := by
  fun_induction fromLevel seen level with
  | case1 seen => simp
  | case2 seen level nonempty next ih =>
      intro node member
      rcases List.mem_append.mp member with here | deeper
      · exact .inl here
      · rcases ih node deeper with isNext | new
        · exact .inr ((unseen_new seen _).2 node isNext)
        · exact .inr fun old => new (List.mem_append_right _ old)

/-- No two listed nodes have one key. -/
theorem nodup_fromLevel (seen : List Nat) (level : List PlanNode)
    (nodup : (level.map (·.key)).Nodup) (marked : ∀ node ∈ level, node.key ∈ seen) :
    ((fromLevel seen level).map (·.key)).Nodup := by
  fun_induction fromLevel seen level with
  | case1 seen => exact .nil
  | case2 seen level nonempty next ih =>
      have nextNew := unseen_new seen (level.flatMap (·.inputs))
      rw [List.map_append, List.nodup_append]
      refine ⟨nodup, ih nextNew.1 ?_, ?_⟩
      · intro node member
        exact List.mem_append_left _ (List.mem_map_of_mem member)
      · intro key here other deeper same
        rcases List.mem_map.mp here with ⟨node, member, rfl⟩
        rcases List.mem_map.mp deeper with ⟨below, belowMember, rfl⟩
        have old : below.key ∈ seen := same ▸ marked node member
        rcases new_of_mem_fromLevel _ _ below belowMember with isNext | new
        · exact nextNew.2 below isNext old
        · exact new (List.mem_append_right _ old)

/-- The inputs of listed nodes are seen or listed. -/
theorem closed_fromLevel (seen : List Nat) (level : List PlanNode) :
    ∀ node ∈ fromLevel seen level, ∀ input ∈ node.inputs,
      input.key ∈ seen ∨ input.key ∈ (fromLevel seen level).map (·.key) := by
  fun_induction fromLevel seen level with
  | case1 seen => simp
  | case2 seen level nonempty next ih =>
      have listed : ∀ key ∈ next.map (·.key),
          key ∈ (level ++ fromLevel (next.map (·.key) ++ seen) next).map (·.key) := by
        intro key isNext
        rcases List.mem_map.mp isNext with ⟨node, member, rfl⟩
        exact List.mem_map_of_mem (List.mem_append_right _ (level_subset _ _ node member))
      intro node member input isInput
      rcases List.mem_append.mp member with here | deeper
      · rcases seen_or_unseen seen _ input (List.mem_flatMap.mpr ⟨node, here, isInput⟩) with
          old | new
        · exact .inl old
        · exact .inr (listed _ new)
      · rcases ih node deeper input isInput with known | below
        · rcases List.mem_append.mp known with new | old
          · exact .inr (listed _ new)
          · exact .inl old
        · rw [List.map_append]
          exact .inr (List.mem_append_right _ below)

variable {plan : PlanNode}

theorem nodup_breadthFirst (plan : PlanNode) : (plan.breadthFirst.map (·.key)).Nodup :=
  nodup_fromLevel _ _ (by simp) (by simp)

/-- The breadth-first order holds exactly the nodes that occur in a plan. -/
theorem mem_breadthFirst (coherent : plan.Coherent) {node : PlanNode} :
    node ∈ plan.breadthFirst ↔ Occurs node plan := by
  have sound : ∀ node ∈ plan.breadthFirst, Occurs node plan := by
    intro node member
    rcases occurs_of_mem_fromLevel _ _ node member with ⟨root, isRoot, inside⟩
    rwa [List.mem_singleton.mp isRoot] at inside
  have root : plan ∈ plan.breadthFirst := level_subset _ _ plan (List.mem_singleton_self plan)
  constructor
  · exact sound node
  · intro occurs
    refine occurs.closed ?_ root
    intro outer member input isInput
    have inPlan := (Occurs.input isInput).trans (sound outer member)
    have listed : input.key ∈ plan.breadthFirst.map (·.key) := by
      rcases closed_fromLevel _ _ outer member input isInput with isRoot | below
      · rw [List.mem_singleton.mp isRoot]
        exact List.mem_map_of_mem root
      · exact below
    rcases List.mem_map.mp listed with ⟨other, otherMember, same⟩
    rwa [← coherent other input (sound other otherMember) inPlan same]

/-- Any list of exactly the nodes of a plan, without repetitions, is a
rearrangement of the breadth-first order. -/
theorem breadthFirst_perm (coherent : plan.Coherent) {nodes : List PlanNode}
    (nodup : (nodes.map (·.key)).Nodup) (listed : ∀ node, node ∈ nodes ↔ Occurs node plan) :
    plan.breadthFirst.Perm nodes := by
  apply (List.perm_ext_iff_of_nodup (.of_map _ (nodup_breadthFirst plan)) (.of_map _ nodup)).mpr
  intro node
  rw [mem_breadthFirst coherent, listed]

/-- A plan is coherent when its nodes can be listed with all keys different. -/
theorem coherent_of_listed {nodes : List PlanNode} (nodup : (nodes.map (·.key)).Nodup)
    (listed : ∀ node, Occurs node plan → node ∈ nodes) : plan.Coherent := by
  intro left right leftOccurs rightOccurs same
  exact List.inj_on_of_nodup_map nodup (listed left leftOccurs) (listed right rightOccurs) same

end QueryPlan.PlanNode
