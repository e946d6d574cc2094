import QueryPlan.Proofs.Equality.Form
import QueryPlan.Proofs.Graph.Import
import QueryPlan.Proofs.Plan.BreadthFirst

/-!
# Renumbered plans

A plan whose nodes are numbered by the places of their keys lists its nodes in
the same breadth-first order, since nodes are one node after the renumbering
exactly when they were before. Operators and fields stay what they are. When the
places are those of the nodes listed inputs first, as in the import, every
number is used once and every node has a greater one than its inputs.
-/

namespace QueryPlan

open PlanNode

/-- A value keeps its place under a map that keeps the other members apart from it. -/
theorem idxOf_map_of_apart (image : Nat → Nat) {value : Nat} {values : List Nat}
    (apart : ∀ other ∈ values, image other = image value → other = value) :
    (values.map image).idxOf (image value) = values.idxOf value := by
  induction values with
  | nil => rfl
  | cons first rest ih =>
      have same : (image first == image value) = (first == value) := by
        rw [Bool.eq_iff_iff, beq_iff_eq, beq_iff_eq]
        exact ⟨apart first List.mem_cons_self, congrArg image⟩
      rw [List.map_cons, List.idxOf_cons, List.idxOf_cons, same,
        ih fun other member => apart other (List.mem_cons_of_mem _ member)]

section Relabel

variable {firstKey : Nat} {keys : List Nat}

@[simp] theorem key_relabel (node : PlanNode) :
    (relabel firstKey keys node).key = firstKey + keys.idxOf node.key := by
  rw [relabel_eq]
  rfl

@[simp] theorem id_relabel (node : PlanNode) :
    (relabel firstKey keys node).id = keys.idxOf node.key := by
  rw [relabel_eq]
  rfl

@[simp] theorem operator_relabel (node : PlanNode) :
    (relabel firstKey keys node).operator = node.operator := by
  rw [relabel_eq]
  rfl

@[simp] theorem inputs_relabel (node : PlanNode) :
    (relabel firstKey keys node).inputs = node.inputs.map (relabel firstKey keys) := by
  rw [relabel_eq]
  rfl

theorem occurs_relabel {node plan : PlanNode} (occurs : Occurs node plan) :
    Occurs (relabel firstKey keys node) (relabel firstKey keys plan) := by
  induction occurs with
  | here => exact .here
  | under isInput _ ih =>
      refine .under ?_ ih
      rw [inputs_relabel]
      exact List.mem_map_of_mem isInput

/-- The nodes of a renumbered plan with a distinct call are those of the plan. -/
theorem mem_of_distinct_relabel {node plan : PlanNode} {nodes : List PlanNode}
    (listed : ∀ {inner}, Occurs inner plan → inner ∈ nodes)
    (occurs : Occurs node (relabel firstKey keys plan))
    (distinct : node.operator.hasDistinctCall = true) :
    node ∈ (nodes.filter (·.operator.hasDistinctCall)).map (relabel firstKey keys) := by
  obtain ⟨original, present, rfl⟩ := exists_of_occurs_relabel occurs
  rw [operator_relabel] at distinct
  exact List.mem_map_of_mem (List.mem_filter.mpr ⟨listed present, distinct⟩)

theorem schema_relabel {plan : PlanNode} (built : plan.Built) :
    (relabel firstKey keys plan).schema = plan.schema := by
  apply image_relabel
  intro node occurs key id inputs same
  rw [(built node occurs).schema_eq, ← same]
  rfl

/-- New numbers do not show in the form of a plan. -/
theorem form_relabel {naming : String → String} {plan : PlanNode} (built : plan.Built)
    (firstKey : Nat) (keys : List Nat) :
    (relabel firstKey keys plan).form naming = plan.form naming := by
  apply image_relabel
  intro node occurs key id inputs forms
  have assembled := @form_assemble naming key id node.key node.id node.operator _ _ _ rfl forms
  rwa [← (built node occurs).eq_assemble] at assembled

/-- Listed keys are told apart by their places. -/
theorem number_injective_of_mem {key other : Nat} (listed : key ∈ keys)
    (same : firstKey + keys.idxOf key = firstKey + keys.idxOf other) : key = other :=
  (List.idxOf_inj listed).mp (Nat.add_left_cancel same)

theorem unseen_relabel {seen : List Nat} {nodes : List PlanNode} (seenListed : seen ⊆ keys)
    (listed : ∀ node ∈ nodes, node.key ∈ keys) :
    unseen (seen.map fun key => firstKey + keys.idxOf key) (nodes.map (relabel firstKey keys)) =
      (unseen seen nodes).map (relabel firstKey keys) := by
  induction nodes generalizing seen with
  | nil => rfl
  | cons node rest ih =>
      obtain ⟨nodeListed, restListed⟩ := List.forall_mem_cons.mp listed
      have old : firstKey + keys.idxOf node.key ∈
          seen.map (fun key => firstKey + keys.idxOf key) ↔ node.key ∈ seen := by
        constructor
        · intro member
          rcases List.mem_map.mp member with ⟨key, known, same⟩
          rwa [← number_injective_of_mem (seenListed known) same]
        · exact fun known => List.mem_map_of_mem (f := fun key => firstKey + keys.idxOf key) known
      rw [List.map_cons, unseen, unseen, key_relabel]
      by_cases known : node.key ∈ seen
      · rw [if_pos (old.mpr known), if_pos known, ih seenListed restListed]
      · rw [if_neg (mt old.mp known), if_neg known, List.map_cons]
        have further : node.key :: seen ⊆ keys := List.cons_subset.mpr ⟨nodeListed, seenListed⟩
        rw [← ih further restListed, List.map_cons]

/-- Levels are searched alike before and after the renumbering. -/
theorem fromLevel_relabel {seen : List Nat} {level : List PlanNode} (seenListed : seen ⊆ keys)
    (listed : ∀ node ∈ level, ∀ inner, Occurs inner node → inner.key ∈ keys) :
    fromLevel (seen.map fun key => firstKey + keys.idxOf key) (level.map (relabel firstKey keys)) =
      (fromLevel seen level).map (relabel firstKey keys) := by
  fun_induction fromLevel seen level with
  | case1 seen => rw [List.map_nil, fromLevel, if_pos rfl]
  | case2 seen level nonempty next ih =>
      have inputsListed : ∀ input ∈ level.flatMap (·.inputs), ∀ inner, Occurs inner input →
          inner.key ∈ keys := by
        intro input member inner inside
        rcases List.mem_flatMap.mp member with ⟨node, isNode, isInput⟩
        exact listed node isNode inner (inside.trans (.input isInput))
      have nextListed : ∀ node ∈ next, ∀ inner, Occurs inner node → inner.key ∈ keys :=
        fun node member => inputsListed node ((unseen_sublist seen _).subset member)
      have nextLevels : nextLevel (seen.map fun key => firstKey + keys.idxOf key)
          (level.map (relabel firstKey keys)) = next.map (relabel firstKey keys) := by
        have inputs : (level.map (relabel firstKey keys)).flatMap (·.inputs) =
            (level.flatMap (·.inputs)).map (relabel firstKey keys) := by
          rw [List.flatMap_map, List.map_flatMap]
          simp only [inputs_relabel]
        rw [nextLevel, inputs]
        exact unseen_relabel seenListed fun input member => inputsListed input member input .here
      rw [fromLevel, if_neg (by simpa using nonempty), nextLevels, List.map_append]
      have further : next.map (·.key) ++ seen ⊆ keys := by
        rw [List.append_subset]
        refine ⟨?_, seenListed⟩
        intro key member
        rcases List.mem_map.mp member with ⟨node, isNext, rfl⟩
        exact nextListed node isNext node .here
      rw [← ih further nextListed]
      simp only [List.map_append, List.map_map, Function.comp_def, key_relabel]

variable {plan : PlanNode}

theorem breadthFirst_relabel (listed : ∀ node, Occurs node plan → node.key ∈ keys) :
    (relabel firstKey keys plan).breadthFirst = plan.breadthFirst.map (relabel firstKey keys) := by
  have root : [plan.key] ⊆ keys := by simpa using listed plan .here
  have levels := @fromLevel_relabel firstKey keys [plan.key] [plan] root (by simpa using listed)
  rw [breadthFirst, key_relabel]
  exact levels

/-- In breadth-first order a renumbered plan has the same operators with the same
fields, over inputs at the same places. -/
theorem numbered_relabel (valid : plan.Valid)
    (listed : ∀ node, Occurs node plan → node.key ∈ keys) :
    (relabel firstKey keys plan).numbered.map
        (fun entry => (entry.1.operator, entry.1.schema, entry.2)) =
      plan.numbered.map fun entry => (entry.1.operator, entry.1.schema, entry.2) := by
  simp only [numbered, breadthFirst_relabel listed, List.map_map]
  apply List.map_congr_left
  intro node member
  have occurs := (mem_breadthFirst valid.coherent).mp member
  simp only [Function.comp_apply, operator_relabel, inputs_relabel,
    schema_relabel (valid.built.of_occurs occurs), Prod.mk.injEq, true_and, List.map_map]
  apply List.map_congr_left
  intro input isInput
  have keysMapped : plan.breadthFirst.map ((·.key) ∘ relabel firstKey keys) =
      (plan.breadthFirst.map (·.key)).map fun key => firstKey + keys.idxOf key := by
    rw [List.map_map]
    apply List.map_congr_left
    exact fun other _ => key_relabel other
  rw [Function.comp_apply, key_relabel, keysMapped]
  apply idxOf_map_of_apart fun key => firstKey + keys.idxOf key
  intro other otherMember same
  rcases List.mem_map.mp otherMember with ⟨otherNode, isListed, rfl⟩
  exact number_injective_of_mem
    (listed otherNode ((mem_breadthFirst valid.coherent).mp isListed)) same

end Relabel

section Places

variable {firstKey : Nat} {plan : PlanNode}

/-- In a list that was grown inputs first, inputs have the smaller places. -/
theorem PlanNode.Settled.idxOf_input_lt {nodes : List PlanNode} (settled : Settled plan nodes) :
    ∀ node ∈ nodes, ∀ input ∈ node.inputs,
      (nodes.map (·.key)).idxOf input.key < (nodes.map (·.key)).idxOf node.key := by
  induction settled with
  | nil => simp
  | @snoc nodes last before inPlan new inputs ih =>
      have earlier {key : Nat} (listed : key ∈ nodes.map (·.key)) :
          ((nodes ++ [last]).map (·.key)).idxOf key = (nodes.map (·.key)).idxOf key := by
        rw [List.map_append, List.idxOf_append, if_pos listed]
      intro node member input isInput
      rcases List.mem_append.mp member with old | isLast
      · rw [earlier (before.closed node old input isInput),
          earlier (List.mem_map_of_mem old)]
        exact ih node old input isInput
      · obtain rfl := List.mem_singleton.mp isLast
        have bound := List.idxOf_lt_length_of_mem (inputs input isInput)
        rw [earlier (inputs input isInput), List.map_append, List.idxOf_append, if_neg new]
        exact Nat.lt_of_lt_of_le bound (Nat.le_add_left _ _)

/-- The numbers of the import are the first ones, each used once. -/
theorem ids_relabel (coherent : plan.Coherent) :
    ((relabel firstKey (plan.nodes.map (·.key)) plan).breadthFirst.map (·.id)).Perm
      (List.range plan.breadthFirst.length) := by
  have settled := settled_nodes coherent
  have listed : ∀ node, Occurs node plan → node.key ∈ plan.nodes.map (·.key) :=
    fun node occurs => List.mem_map_of_mem ((mem_nodes coherent).mpr occurs)
  have perm := breadthFirst_perm coherent settled.nodup_keys fun _ => mem_nodes coherent
  have places : plan.nodes.map (fun node => (plan.nodes.map (·.key)).idxOf node.key) =
      List.range plan.nodes.length := by
    apply List.ext_getElem
    · simp
    · intro index bound _
      rw [List.getElem_map, List.getElem_range]
      exact idxOf_of_getElem? settled (List.getElem?_eq_getElem (by simpa using bound))
  rw [breadthFirst_relabel listed, List.map_map, perm.length_eq, ← places]
  simp only [Function.comp_def, id_relabel]
  exact perm.map _

/-- The root has the last of the numbers. -/
theorem id_root_relabel (coherent : plan.Coherent) :
    (relabel firstKey (plan.nodes.map (·.key)) plan).id + 1 = plan.breadthFirst.length := by
  have settled := settled_nodes coherent
  have perm := breadthFirst_perm coherent settled.nodup_keys fun _ => mem_nodes coherent
  rw [id_relabel, perm.length_eq]
  have root : plan.nodes[(postorderAll [] plan.inputs).length]? = some plan := by
    rw [nodes_eq, List.getElem?_append_right (Nat.le_refl _), Nat.sub_self]
    rfl
  rw [idxOf_of_getElem? settled root, nodes_eq, List.length_append, List.length_singleton]

/-- Every node has a greater number than its inputs. -/
theorem id_input_lt_relabel (coherent : plan.Coherent) {node : PlanNode}
    (occurs : Occurs node (relabel firstKey (plan.nodes.map (·.key)) plan)) :
    ∀ input ∈ node.inputs, input.id < node.id := by
  rcases exists_of_occurs_relabel occurs with ⟨original, present, rfl⟩
  intro input isInput
  rw [inputs_relabel] at isInput
  rcases List.mem_map.mp isInput with ⟨below, isBelow, rfl⟩
  rw [id_relabel, id_relabel]
  exact (settled_nodes coherent).idxOf_input_lt original ((mem_nodes coherent).mpr present) below
    isBelow

end Places

end QueryPlan
