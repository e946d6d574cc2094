import Mathlib.Algebra.GroupWithZero.Nat
import Mathlib.Data.List.Forall2
import QueryPlan.Proofs.Elimination.Size
import QueryPlan.Proofs.Graph.Splice
import QueryPlan.Proofs.Run.Optimization

/-!
# Nodes of the plan in the result

The import numbers the nodes of a plan, and a node keeps its number until it is
eliminated itself. So every node that is left has one counterpart in the result,
however many parents share it, and all other nodes of the result were made by
eliminations. `Traces` says so of any state of a run.
-/

namespace QueryPlan

open DistinctElimination PlanNode

/-- The operator of the node at which a rule was fired. -/
def Event.tried? : Event → Option Operator
  | trying _ operator => some operator
  | _ => none

theorem Event.isTrying_eq : Event.isTrying = fun event => event.tried?.isSome := by
  funext event
  cases event <;> rfl

namespace PlanNode

/-- The number that a node of a plan has after the import: its place among the
nodes, inputs first. -/
def number (plan node : PlanNode) : Nat := (plan.nodes.map (·.key)).idxOf node.key

variable {plan : PlanNode}

theorem getElem?_number (coherent : plan.Coherent) {node : PlanNode} (occurs : Occurs node plan) :
    plan.nodes[plan.number node]? = some node :=
  getElem?_idxOf (settled_nodes coherent) coherent occurs
    (List.mem_map_of_mem ((mem_nodes coherent).mpr occurs))

theorem number_lt (coherent : plan.Coherent) {node : PlanNode} (occurs : Occurs node plan) :
    plan.number node < plan.nodes.length :=
  (List.getElem?_eq_some_iff.mp (getElem?_number coherent occurs)).1

/-- Nodes of a plan with one number are one node. -/
theorem number_injective (coherent : plan.Coherent) {left right : PlanNode}
    (leftOccurs : Occurs left plan) (rightOccurs : Occurs right plan)
    (same : plan.number left = plan.number right) : left = right := by
  have found := getElem?_number coherent leftOccurs
  rw [same, getElem?_number coherent rightOccurs] at found
  exact (Option.some.inj found).symm

theorem exists_number (coherent : plan.Coherent) {index : Nat} (bound : index < plan.nodes.length) :
    ∃ node, Occurs node plan ∧ plan.number node = index :=
  ⟨_, (mem_nodes coherent).mp (List.getElem_mem bound),
    idxOf_of_getElem? (settled_nodes coherent) (List.getElem?_eq_getElem bound)⟩

/-- Both lists of the nodes of a plan are equally long. -/
theorem length_breadthFirst (coherent : plan.Coherent) :
    plan.breadthFirst.length = plan.nodes.length :=
  (breadthFirst_perm coherent (settled_nodes coherent).nodup_keys fun _ =>
    mem_nodes coherent).length_eq

/-- Whether a node of the result stands for a node of the plan: it has kept the
number of this node. -/
def IsCounterpart (plan result node image : PlanNode) : Prop :=
  Occurs image result ∧ image.id = plan.number node

end PlanNode

namespace Represents

variable {graph : PlanDag} {firstKey : Nat} {node : Nat → PlanNode} {plan : PlanNode}

/-- A plan lists its nodes as its graph lists the vertices. -/
theorem breadthFirst_perm (represents : Represents graph firstKey node) :
    (node graph.root).breadthFirst.Perm (graph.vertices.map fun vertex => node vertex.id) :=
  PlanNode.breadthFirst_perm represents.valid.coherent represents.nodup_keys
    fun _ => represents.mem_labels

theorem length_breadthFirst (represents : Represents graph firstKey node) :
    (node graph.root).breadthFirst.length = graph.size := by
  rw [represents.breadthFirst_perm.length_eq, List.length_map, PlanDag.size]

theorem nodup_ids (represents : Represents graph firstKey node) :
    ((node graph.root).breadthFirst.map (·.id)).Nodup := by
  have ids : (graph.vertices.map fun vertex => node vertex.id).map (·.id) = graph.ids := by
    rw [PlanDag.ids, List.map_map]
    apply List.map_congr_left
    intro vertex member
    exact represents.labels.id_eq (List.mem_map_of_mem member)
  rw [(represents.breadthFirst_perm.map _).nodup_iff, ids]
  exact represents.ordered.nodup_ids

/-- The only counterpart of a node is the label of its number. -/
theorem isCounterpart_iff (represents : Represents graph firstKey node)
    {original image : PlanNode} :
    IsCounterpart plan (node graph.root) original image ↔
      plan.number original ∈ graph.ids ∧ image = node (plan.number original) := by
  rw [IsCounterpart, represents.occurs_iff]
  constructor
  · rintro ⟨⟨vertex, present, rfl⟩, id⟩
    have listed : vertex.id ∈ graph.ids := List.mem_map_of_mem present
    rw [represents.labels.id_eq listed] at id
    rw [← id]
    exact ⟨listed, rfl⟩
  · rintro ⟨listed, rfl⟩
    refine ⟨?_, represents.labels.id_eq listed⟩
    rcases List.mem_map.mp listed with ⟨vertex, present, id⟩
    exact ⟨vertex, present, by rw [id]⟩

end Represents

namespace OptimizerRun

theorem tried?_eventOf (aggregate : Aggregate) : (eventOf aggregate).tried? = none := by
  rw [eventOf]
  cases aggregate.soleArguments? <;> rfl

/-- A run that has eliminated some nodes of the plan, in this order. Every other
node has kept its number and operator, and reads the numbers of its inputs where
these were not eliminated. The numbers of eliminated nodes are free, and what was
added has no distinct calls. -/
structure Traces (plan : PlanNode) (fired : List PlanNode) (run : OptimizerRun) : Prop where
  occurs : ∀ node ∈ fired, Occurs node plan
  distinct : ∀ node ∈ fired, node.operator.hasDistinctCall = true
  nodup : fired.Nodup
  kept : ∀ node, Occurs node plan → node ∉ fired → ∃ vertex ∈ run.graph.vertices,
    vertex.id = plan.number node ∧ vertex.operator = node.operator ∧
      List.Forall₂ (fun input id => input ∉ fired → id = plan.number input)
        node.inputs vertex.inputs
  gone : ∀ node ∈ fired, plan.number node ∉ run.graph.ids
  original : ∀ vertex ∈ run.graph.vertices, vertex.operator.hasDistinctCall = true →
    vertex.id < plan.nodes.length
  fresh : plan.nodes.length ≤ run.nextId
  size : run.graph.size = plan.nodes.length + (fired.map (·.operator.growth)).sum
  tried : run.log.filterMap Event.tried? = (fired.map (·.operator)).reverse

namespace Traces

variable {plan : PlanNode} {fired : List PlanNode} {run : OptimizerRun}

/-- At the start every node has its number. -/
theorem start (coherent : plan.Coherent) (firstKey : Nat) :
    Traces plan [] (start plan firstKey) := by
  have vertices := vertices_ofPlan coherent
  have size : (PlanDag.ofPlan plan).size = plan.nodes.length := by
    rw [PlanDag.size, vertices, List.length_map, length_places]
  refine ⟨by simp, by simp, .nil, ?_, by simp, ?_, Nat.le_of_eq size.symm, size, rfl⟩
  · intro node occurs _
    refine ⟨.ofInputs (plan.number node) node.operator (node.inputs.map plan.number), ?_, rfl, rfl,
      ?_⟩
    · change _ ∈ (PlanDag.ofPlan plan).vertices
      rw [vertices]
      exact mem_vertices.mpr ⟨_, node, getElem?_number coherent occurs, rfl⟩
    · rw [Vertex.inputs_ofInputs, List.forall₂_map_right_iff, List.forall₂_same]
      exact fun _ _ _ => rfl
  · intro vertex member _
    rw [← size]
    exact fresh_ofPlan coherent vertex.id (List.mem_map_of_mem member)

theorem idle (traces : Traces plan fired run) {later : OptimizerRun} (idle : Idle run later) :
    Traces plan fired later := by
  rcases idle with ⟨events, skipped, rfl⟩
  have silent : events.filterMap Event.tried? = [] := by
    rw [List.filterMap_eq_nil_iff]
    intro event member
    rcases skipped event member with ⟨rule, operator, rfl⟩
    rfl
  refine { traces with tried := ?_ }
  rw [List.filterMap_append, silent, List.nil_append]
  exact traces.tried

/-- A vertex with distinct calls belongs to a node that was not eliminated. -/
theorem exists_of_distinct (traces : Traces plan fired run) (coherent : plan.Coherent)
    (unique : (run.graph.vertices.map (·.id)).Nodup) {vertex : Vertex}
    (member : vertex ∈ run.graph.vertices) (distinct : vertex.operator.hasDistinctCall = true) :
    ∃ node, Occurs node plan ∧ node ∉ fired ∧ plan.number node = vertex.id ∧
      node.operator = vertex.operator := by
  rcases exists_number coherent (traces.original vertex member distinct) with ⟨node, occurs, number⟩
  have left : node ∉ fired := by
    intro eliminated
    apply traces.gone node eliminated
    rw [number]
    exact List.mem_map_of_mem member
  rcases traces.kept node occurs left with ⟨other, present, id, operator, _⟩
  have same : other = vertex :=
    List.inj_on_of_nodup_map unique present member (id.trans number)
  exact ⟨node, occurs, left, number, by rw [← operator, same]⟩

section Elimination

variable {node : Nat → PlanNode} {vertex : Vertex} {target : PlanNode} {template : Template}
  {nextId : Nat}

/-- A node that is neither eliminated before nor now stays what it is. -/
theorem kept_replace (traces : Traces plan fired run) (coherent : plan.Coherent)
    (replaceable : Replaceable run.graph run.firstKey node vertex template nextId)
    (targetOccurs : Occurs target plan) (number : plan.number target = vertex.id)
    {other : PlanNode} (occurs : Occurs other plan) (left : other ∉ fired ++ [target]) :
    ∃ image ∈ (run.graph.replace vertex.id
        (template.place (run.firstKey + nextId) nextId)).vertices,
      image.id = plan.number other ∧ image.operator = other.operator ∧
        List.Forall₂ (fun input id => input ∉ fired ++ [target] → id = plan.number input)
          other.inputs image.inputs := by
  have apart {node : PlanNode} (nodeOccurs : Occurs node plan)
      (nodeLeft : node ∉ fired ++ [target]) :
      node ∉ fired ∧ plan.number node ≠ vertex.id := by
    rw [List.mem_append, List.mem_singleton, not_or] at nodeLeft
    refine ⟨nodeLeft.1, ?_⟩
    rw [← number]
    exact fun same => nodeLeft.2 (number_injective coherent nodeOccurs targetOccurs same)
  rcases traces.kept other occurs (apart occurs left).1 with ⟨old, present, id, operator, inputs⟩
  have differs : old.id ≠ vertex.id := id ▸ (apart occurs left).2
  refine ⟨_, replaceable.mem_vertices_replace.mpr (.inr ⟨old, present, differs, rfl⟩), id, operator,
    ?_⟩
  rw [replaceable.inputs_redirect present, List.forall₂_map_right_iff]
  rw [List.forall₂_iff_zip] at inputs ⊢
  refine ⟨inputs.1, ?_⟩
  intro input inputId paired inputLeft
  have inputOccurs := (Occurs.input (List.of_mem_zip paired).1).trans occurs
  have same := inputs.2 paired (apart inputOccurs inputLeft).1
  rw [Vertex.redirected, same, if_neg (apart inputOccurs inputLeft).2]

/-- Numbers of eliminated nodes stay free. -/
theorem gone_replace (traces : Traces plan fired run) (coherent : plan.Coherent)
    (replaceable : Replaceable run.graph run.firstKey node vertex template run.nextId)
    (number : plan.number target = vertex.id) {other : PlanNode}
    (eliminated : other ∈ fired ++ [target]) :
    plan.number other ∉ (run.graph.replace vertex.id
      (template.place (run.firstKey + run.nextId) run.nextId)).ids := by
  rw [replaceable.mem_ids_replace, not_or, not_and, Classical.not_not]
  rcases List.mem_append.mp eliminated with before | now
  · have smaller := number_lt coherent (traces.occurs other before)
    have fresh := traces.fresh
    refine ⟨?_, fun old => absurd old (traces.gone other before)⟩
    rw [List.mem_range'_1]
    omega
  · rw [List.mem_singleton.mp now, number]
    have smaller := replaceable.fresh vertex.id replaceable.target_mem
    refine ⟨?_, fun _ => rfl⟩
    rw [List.mem_range'_1]
    omega

/-- Only vertices of the plan itself have distinct calls. -/
theorem original_replace (traces : Traces plan fired run)
    (replaceable : Replaceable run.graph run.firstKey node vertex template nextId)
    (undistinct : ∀ operator ∈ template.operators, operator.hasDistinctCall = false) :
    ∀ other ∈ (run.graph.replace vertex.id
        (template.place (run.firstKey + nextId) nextId)).vertices,
      other.operator.hasDistinctCall = true → other.id < plan.nodes.length := by
  intro other member distinct
  rcases replaceable.mem_vertices_replace.mp member with ⟨made, new, rfl⟩ | ⟨old, present, _, rfl⟩
  · have plain := undistinct made.operator (by
      rw [← Template.map_operator_created template (run.firstKey + nextId) nextId]
      exact List.mem_map_of_mem new)
    rw [Vertex.operator_ofNode, plain] at distinct
    exact Bool.noConfusion distinct
  · exact traces.original old present distinct

end Elimination

/-- An elimination adds one node of the plan to those that are eliminated. -/
theorem elimination (traces : Traces plan fired run) (coherent : plan.Coherent)
    {node : Nat → PlanNode} {vertex : Vertex} {aggregate : Aggregate} {input : PlanNode}
    (replaceable : Replaceable run.graph run.firstKey node vertex (templateOf (node vertex.id))
      run.nextId)
    (eliminable : (node vertex.id).Eliminable aggregate input) (after : PlanNode) :
    ∃ target, Traces plan (fired ++ [target])
      ⟨run.graph.replace (node vertex.id).id
          ((templateOf (node vertex.id)).place (run.firstKey + run.nextId) run.nextId),
        run.firstKey, run.nextId + (templateOf (node vertex.id)).size,
        .applied name after :: eventOf aggregate :: .trying name (node vertex.id).operator ::
          run.log⟩ := by
  have represents := replaceable.represents
  have member := replaceable.member
  have label := represents.labels.operator_eq member
  have distinct : vertex.operator.hasDistinctCall = true := by
    rw [← label, eliminable.operator]
    exact eliminable.distinct
  obtain ⟨target, occurs, left, number, operator⟩ :=
    traces.exists_of_distinct coherent represents.ordered.nodup_ids member distinct
  have size := replaceable.size_replace
  rw [size_templateOf_eq eliminable, label, ← operator, traces.size] at size
  rw [replaceable.id_label replaceable.target_mem, label]
  have each {property : PlanNode → Prop} (before : ∀ other ∈ fired, property other)
      (now : property target) : ∀ other ∈ fired ++ [target], property other := by
    rw [List.forall_mem_append]
    exact ⟨before, by rwa [List.forall_mem_singleton]⟩
  refine ⟨target, ⟨?occurs, ?distinct, ?nodup, ?kept, ?gone, ?original, ?fresh, ?size, ?tried⟩⟩
  case occurs => exact each traces.occurs occurs
  case distinct => exact each traces.distinct (by rwa [operator])
  case nodup =>
    rw [List.nodup_append]
    refine ⟨traces.nodup, List.nodup_singleton target, ?_⟩
    intro other before _ now same
    rw [List.mem_singleton.mp now] at same
    exact left (same ▸ before)
  case kept =>
    intro other otherOccurs otherLeft
    exact traces.kept_replace coherent replaceable occurs number otherOccurs otherLeft
  case gone =>
    intro other eliminated
    exact traces.gone_replace coherent replaceable number eliminated
  case original =>
    apply traces.original_replace replaceable
    exact fun new made => (plain_templateOf eliminable new made).undistinct
  case fresh => exact Nat.le_trans traces.fresh (Nat.le_add_right _ _)
  case size =>
    rw [List.map_append, List.map_singleton, List.sum_append, List.sum_singleton]
    have counted (nodes grown growth : Nat) :
        nodes + grown + (growth + 1) = nodes + (grown + growth) + 1 := by omega
    exact Nat.add_right_cancel (size.trans (counted _ _ _))
  case tried =>
    rw [List.map_append, List.reverse_append, List.map_singleton, ← traces.tried, operator]
    simp only [List.filterMap_cons, tried?_eventOf aggregate]
    rfl

/-- Whatever happens in a run, it has eliminated some nodes of the plan. -/
theorem transitions {before after : OptimizerRun} (traces : Traces plan fired before)
    (coherent : plan.Coherent) (steps : Transitions before after) :
    ∃ later, Traces plan later after := by
  induction steps with
  | refl => exact ⟨fired, traces⟩
  | tail _ step ih =>
      rcases ih with ⟨earlier, known⟩
      cases step with
      | idle idle => exact ⟨earlier, known.idle idle⟩
      | elimination replaceable eliminable after =>
          rcases known.elimination coherent replaceable eliminable after with ⟨target, traced⟩
          exact ⟨_, traced⟩

section Result

variable {node : Nat → PlanNode}

/-- A node that was not eliminated has one counterpart, which has its operator
and reads the counterparts of its inputs where these have one. -/
theorem exists_counterpart (traces : Traces plan fired run)
    (represents : Represents run.graph run.firstKey node) {original : PlanNode}
    (occurs : Occurs original plan) (left : original ∉ fired) :
    ∃ image, (∀ other, IsCounterpart plan (node run.graph.root) original other ↔ other = image) ∧
      image.operator = original.operator ∧
      List.Forall₂ (fun input imageInput => input ∉ fired →
        IsCounterpart plan (node run.graph.root) input imageInput) original.inputs image.inputs := by
  rcases traces.kept original occurs left with ⟨vertex, present, id, operator, inputs⟩
  have listed : plan.number original ∈ run.graph.ids := id ▸ List.mem_map_of_mem present
  refine ⟨node (plan.number original), ?_, ?_, ?_⟩
  · intro other
    rw [represents.isCounterpart_iff]
    exact and_iff_right listed
  · rw [← id, represents.labels.operator_eq present, operator]
  · rw [← id, represents.labels.inputs_eq present, List.forall₂_map_right_iff]
    rw [List.forall₂_iff_zip] at inputs ⊢
    refine ⟨inputs.1, ?_⟩
    intro input inputId paired inputLeft
    have same := inputs.2 paired inputLeft
    have isInput := represents.input_mem present (List.of_mem_zip paired).2
    rw [represents.isCounterpart_iff, ← same]
    exact ⟨isInput, rfl⟩

/-- An eliminated node has no counterpart. -/
theorem no_counterpart (traces : Traces plan fired run)
    (represents : Represents run.graph run.firstKey node) {original : PlanNode}
    (eliminated : original ∈ fired) (image : PlanNode) :
    ¬IsCounterpart plan (node run.graph.root) original image := by
  rw [represents.isCounterpart_iff]
  exact fun ⟨listed, _⟩ => traces.gone original eliminated listed

end Result

end Traces

end OptimizerRun

namespace Optimizer

variable {plan : PlanNode}

/-- An optimizer neither copies nor loses what is shared. The ids of its result
are different. The nodes at which it fired the rule, which are aggregates with
distinct calls, are gone; every other node of the plan has one counterpart, with
its operator and over the counterparts of its inputs; and the result has as many
further nodes as the eliminations account for. -/
theorem optimize_keeps_nodes (valid : plan.Valid) (copies : Nat) (order : VisitOrder)
    (maxIterations firstKey : Nat) :
    let optimization := (eliminating copies order maxIterations).optimize plan firstKey
    ∃ result, ∃ fired : List PlanNode,
      optimization.plan = .ok result ∧
      (result.breadthFirst.map (·.id)).Nodup ∧
      fired.Nodup ∧
      (∀ node ∈ fired, Occurs node plan ∧ node.operator.hasDistinctCall = true ∧
        ∀ image, ¬IsCounterpart plan result node image) ∧
      optimization.log.filterMap Event.tried? = fired.map (·.operator) ∧
      (∀ node, Occurs node plan → node ∉ fired → ∃ image,
        (∀ other, IsCounterpart plan result node other ↔ other = image) ∧
        image.operator = node.operator ∧
        List.Forall₂ (fun input imageInput => input ∉ fired →
          IsCounterpart plan result input imageInput) node.inputs image.inputs) ∧
      result.breadthFirst.length =
        plan.breadthFirst.length + (fired.map (·.operator.growth)).sum := by
  obtain ⟨run, result, progress, optimized⟩ := optimize_eq valid copies order maxIterations firstKey
  obtain ⟨fired, traces⟩ :=
    (OptimizerRun.Traces.start valid.coherent firstKey).transitions valid.coherent
      progress.transitions
  obtain ⟨⟨node, represents, rfl⟩, _⟩ := progress.worksOn
  refine ⟨_, fired, by rw [optimized], represents.nodup_ids, traces.nodup, ?_, ?_, ?_, ?_⟩
  · intro original eliminated
    exact ⟨traces.occurs original eliminated, traces.distinct original eliminated,
      traces.no_counterpart represents eliminated⟩
  · rw [optimized, List.filterMap_reverse, ← List.reverse_reverse (fired.map _), ← traces.tried]
    split <;> rfl
  · intro original occurs left
    exact traces.exists_counterpart represents occurs left
  · rw [represents.length_breadthFirst, traces.size, length_breadthFirst valid.coherent]

/-- `optimize_keeps_nodes` for a plan that reads an aggregate twice. The aggregate is
eliminated once, and its five further nodes are there once. -/
theorem optimize_keeps_nodes_pairs :
    let plan := Sample.pairs
    let optimization := (eliminating 2 .topDown 3).optimize plan 7
    ∃ result, optimization.plan = .ok result ∧
      (result.breadthFirst.map (·.id)).Nodup ∧ result.breadthFirst.length = 8 ∧
      optimization.log.filterMap Event.tried? = [Sample.customers.operator] ∧
      (∀ image, ¬IsCounterpart plan result Sample.customers image) ∧
      ∀ node ∈ [Sample.pairs, Sample.orders], ∃ image,
        (∀ other, IsCounterpart plan result node other ↔ other = image) ∧
        image.operator = node.operator := by
  intro plan optimization
  obtain ⟨result, fired, optimized, ids, nodup, gone, tried, kept, counted⟩ :=
    optimize_keeps_nodes Sample.pairs_valid 2 .topDown 3 7
  have listed (node : PlanNode) : node ∈ [Sample.pairs, Sample.customers, Sample.orders] ↔
      Occurs node Sample.pairs := Sample.occurs_pairs.symm
  -- Only the customers have a distinct call, and the rule is tried once.
  have only : ∀ node ∈ fired, node = Sample.customers := by
    intro node member
    obtain ⟨occurs, distinct, _⟩ := gone node member
    have either := (listed node).mpr occurs
    simp only [List.mem_cons, List.not_mem_nil, or_false] at either
    rcases either with rfl | rfl | rfl
    · exact absurd distinct (by decide)
    · rfl
    · exact absurd distinct (by decide)
  have once : fired.length = 1 := by
    have tries := countP_isTrying_optimize Sample.pairs_valid 1 .topDown 3 7
    rw [Sample.eliminationCount_pairs] at tries
    have lengths := congrArg List.length tried
    rw [List.length_map, List.length_filterMap_eq_countP] at lengths
    rw [Event.isTrying_eq] at tries
    exact lengths.symm.trans tries
  obtain rfl : fired = [Sample.customers] := List.eq_replicate_iff.mpr ⟨once, only⟩
  have size : Sample.pairs.breadthFirst.length = 3 :=
    (breadthFirst_perm Sample.pairs_valid.coherent (by decide) listed).length_eq
  rw [size] at counted
  refine ⟨result, optimized, ids, counted.trans (by decide), tried,
    (gone Sample.customers List.mem_cons_self).2.2, ?_⟩
  intro node member
  have occurs : Occurs node Sample.pairs := by
    apply (listed node).mp
    rcases List.mem_pair.mp member with rfl | rfl <;> simp
  have left : node ∉ [Sample.customers] := by
    rw [List.mem_singleton]
    intro same
    have keys := congrArg PlanNode.key same
    rcases List.mem_pair.mp member with rfl | rfl <;> exact absurd keys (by decide)
  obtain ⟨image, unique, operator, _⟩ := kept node occurs left
  exact ⟨image, unique, operator⟩

end Optimizer

end QueryPlan
