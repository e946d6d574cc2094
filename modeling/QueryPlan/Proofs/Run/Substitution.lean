import QueryPlan.Proofs.Graph.Rekeying
import QueryPlan.Proofs.Graph.Renumbering
import QueryPlan.Proofs.Graph.Splice
import QueryPlan.Proofs.Run.Record

/-!
# Replacements are substitutions

Whatever a rule proposes for a node, the plan afterwards is the plan before with
the proposal in the place of this node, wherever it was read. All other nodes
stay the nodes they are, and none is copied. This holds of the firings of a run,
and more generally of any plan that is made of nodes of the replaced one and of
new nodes.
-/

namespace QueryPlan

open DistinctElimination PlanNode

/-- Whether a plan is another one with a replacement in the place of a node. All
other nodes keep their keys, ids and operators, and they read what takes the
place of their inputs. Nodes below the node are not touched, and a node of the
result is the only one with its id. -/
structure IsSubstitution (target replacement plan result : PlanNode) : Prop where
  eq : result = substitute target.id replacement plan
  replaced : substitute target.id replacement target = replacement
  others : ∀ other, Occurs other plan → other ≠ target →
    (substitute target.id replacement other).key = other.key ∧
      (substitute target.id replacement other).id = other.id ∧
      (substitute target.id replacement other).operator = other.operator ∧
      (substitute target.id replacement other).inputs =
        other.inputs.map (substitute target.id replacement)
  below : ∀ inner, Occurs inner target → inner ≠ target →
    substitute target.id replacement inner = inner
  unique : ∀ left right, Occurs left result → Occurs right result → left.id = right.id →
    left = right

namespace Graftable

variable {graph : PlanDag} {firstKey : Nat} {node : Nat → PlanNode} {target : Vertex}
  {graft : PlanNode}

/-- Nodes of the plan other than the replaced one have other ids. -/
theorem id_ne (graftable : Graftable graph firstKey node target graft) {other : PlanNode}
    (occurs : Occurs other (node graph.root)) (apart : other ≠ node target.id) :
    other.id ≠ target.id := by
  intro same
  apply apart
  apply graftable.represents.eq_of_id occurs graftable.target_occurs
  rw [same, graftable.represents.labels.id_eq graftable.target_mem]

/-- The ids of the graph afterwards are those of the plan. -/
theorem mem_ids_replace (graftable : Graftable graph firstKey node target graft) {id : Nat} :
    id ∈ (graph.replace target.id graft).ids ↔
      ∃ inner, Occurs inner (substitute target.id graft (node graph.root)) ∧ inner.id = id := by
  have represents := graftable.represents_replace
  rw [← graftable.plan_replace]
  constructor
  · intro listed
    exact ⟨_, represents.occurs_label listed, represents.labels.id_eq listed⟩
  · rintro ⟨inner, occurs, rfl⟩
    exact (represents.eq_label occurs).1

/-- What is grafted is substituted for the node of the vertex. -/
theorem isSubstitution (graftable : Graftable graph firstKey node target graft) :
    IsSubstitution (node target.id) graft (node graph.root)
      (substitute target.id graft (node graph.root)) := by
  have represents := graftable.represents
  have id : (node target.id).id = target.id := represents.labels.id_eq graftable.target_mem
  refine ⟨by rw [id], by rw [substitute_eq, if_pos rfl], ?others, ?below, ?unique⟩
  case others =>
    rw [id]
    exact fun other occurs apart => substitute_of_ne (graftable.id_ne occurs apart)
  case below =>
    rw [id]
    exact fun inner inside apart => graftable.substitute_below inside apart
  case unique =>
    rw [← graftable.plan_replace]
    exact fun left right => graftable.represents_replace.eq_of_id

end Graftable

namespace Replaceable

variable {graph : PlanDag} {firstKey : Nat} {node : Nat → PlanNode} {target : Vertex}
  {template : Template} {nextId : Nat}

/-- The other nodes of the plan are still there. -/
theorem occurs_image (replaceable : Replaceable graph firstKey node target template nextId)
    {other : PlanNode} (occurs : Occurs other (node graph.root)) (apart : other ≠ node target.id) :
    Occurs (substitute target.id (replacement firstKey template nextId) other)
      (substitute target.id (replacement firstKey template nextId) (node graph.root)) := by
  have graftable := replaceable.graftable
  obtain ⟨listed, same⟩ := replaceable.represents.eq_label occurs
  have differs := graftable.id_ne occurs apart
  have kept := graftable.represents_replace.occurs_label
    (replaceable.mem_ids_replace.mpr (.inr ⟨listed, differs⟩))
  rwa [graftable.plan_replace, graftable.label_old listed differs, same] at kept

/-- What is put in the place of a node is new, or below the node. -/
theorem new_or_below (replaceable : Replaceable graph firstKey node target template nextId)
    {inner : PlanNode} (occurs : Occurs inner (replacement firstKey template nextId)) :
    nextId ≤ inner.id ∨ Occurs inner (node target.id) ∧ inner ≠ node target.id := by
  rcases Template.occurs_place template _ _ occurs with new | ⟨leaf, member, inside⟩
  · exact .inl (Template.id_of_created new).1
  · have isInput := replaceable.leaf_input member
    refine .inr ⟨inside.trans (.input isInput), ?_⟩
    rintro rfl
    exact not_occurs_input isInput inside

/-- The replaced node is gone, and what is there was there before or is new. -/
theorem of_occurs_substitute (replaceable : Replaceable graph firstKey node target template nextId)
    {inner : PlanNode} (occurs : Occurs inner
      (substitute target.id (replacement firstKey template nextId) (node graph.root))) :
    inner.id ≠ target.id ∧
      ((∃ other, Occurs other (node graph.root) ∧ other ≠ node target.id ∧
          inner = substitute target.id (replacement firstKey template nextId) other) ∨
        Occurs inner (replacement firstKey template nextId) ∧ nextId ≤ inner.id) := by
  have graftable := replaceable.graftable
  have represents := replaceable.represents
  have inPlan := occurs
  rw [← graftable.plan_replace] at inPlan
  obtain ⟨listed, same⟩ := graftable.represents_replace.eq_label inPlan
  rcases replaceable.mem_ids_replace.mp listed with new | ⟨old, differs⟩
  · have larger := (List.mem_range'_1.mp new).1
    have smaller := replaceable.fresh target.id replaceable.target_mem
    refine ⟨by omega, ?_⟩
    rcases occurs_substitute occurs with made | ⟨other, otherOccurs, apart, rfl⟩
    · exact .inr ⟨made, larger⟩
    · refine .inl ⟨other, otherOccurs, ?_, rfl⟩
      rintro rfl
      exact apart (replaceable.id_label replaceable.target_mem)
  · rw [graftable.label_old old differs] at same
    refine ⟨differs, .inl ⟨node inner.id, represents.occurs_label old, ?_, same.symm⟩⟩
    intro equal
    have ids := congrArg PlanNode.id equal
    rw [represents.labels.id_eq old, replaceable.id_label replaceable.target_mem] at ids
    exact differs ids

end Replaceable

namespace Optimizer

/-- A replacement is a substitution. At every firing of a run, the plan afterwards
is the plan before with what the rule proposes in the place of the node, and the
node is gone. All other nodes are still there, and nothing else is there but new
nodes of the proposal, which is made of such nodes and of nodes below the node.
The optimization passes through each of these firings, and no other one is on its
record.

The same holds when a vertex of any graph is replaced by a plan with its types
whose nodes are nodes of the vertex and new ones: the nodes left are those of the
plan that is exported, in which the node of the vertex may occur again below new
nodes. A vertex that is to replace itself stays. -/
theorem replacement_exact :
    (∀ {plan : PlanNode}, plan.Valid → ∀ {copies : Nat} {order : VisitOrder}
        {maxIterations firstKey : Nat} {rule : Rule} {target : PlanNode} {before : OptimizerRun},
      (eliminating copies order maxIterations).Fires plan firstKey rule target before →
      ∃ current binding replacement after result,
        Step.perform OptimizerRun.plan before = (.ok current, before) ∧
        Occurs target current ∧ Binding.bind? rule.pattern target = some binding ∧
        (rule.fire binding before.nextId (before.firstKey + before.nextId)).1 =
          .ok (some replacement) ∧
        (∀ inner, Occurs inner current → inner.id < before.nextId) ∧
        (∀ inner, Occurs inner replacement → before.nextId ≤ inner.id ∨
          Occurs inner target ∧ inner ≠ target) ∧
        Step.perform (OptimizerRun.attempt target rule) before = (.ok true, after) ∧
        (eliminating copies order maxIterations).PassesThrough plan firstKey rule target before
          after ∧
        Step.perform OptimizerRun.plan after = (.ok result, after) ∧
        IsSubstitution target replacement current result ∧
        (∀ other, Occurs other current → other ≠ target →
          Occurs (substitute target.id replacement other) result) ∧
        ∀ inner, Occurs inner result → inner.id ≠ target.id ∧
          ((∃ other, Occurs other current ∧ other ≠ target ∧
              inner = substitute target.id replacement other) ∨
            Occurs inner replacement ∧ before.nextId ≤ inner.id)) ∧
    (∀ {plan : PlanNode}, plan.Valid → ∀ {copies : Nat} {order : VisitOrder}
        {maxIterations firstKey : Nat} {early : List Event} {name : String} {operator : Operator},
      early ++ [.trying name operator] <+:
        ((eliminating copies order maxIterations).optimize plan firstKey).log →
      ∃ rule target before,
        (eliminating copies order maxIterations).Fires plan firstKey rule target before ∧
        rule.name = name ∧ target.operator = operator ∧ before.log.reverse = early) ∧
    ∀ {graph : PlanDag} {firstKey : Nat} {node : Nat → PlanNode} {target : Vertex}
        {replacement : PlanNode},
      Represents graph firstKey node → target ∈ graph.vertices → replacement.Built →
      replacement.types = (node target.id).types →
      (∀ inner, Occurs inner replacement → inner.id ∈ graph.ids →
        Occurs inner (node target.id)) →
      (∀ left right, Occurs left replacement → Occurs right replacement →
        left.id ∉ graph.ids → left.id = right.id → left = right) →
      (replacement.id = target.id → graph.replace target.id replacement = graph) ∧
      (replacement.id ≠ target.id →
        ∃ result, graph.toPlan firstKey = .ok (node graph.root) ∧
          (graph.replace target.id replacement).toPlan firstKey = .ok result ∧
          IsSubstitution (node target.id) (replacement.rekey firstKey) (node graph.root) result ∧
          (∀ inner, Occurs inner replacement → inner.id ∈ graph.ids →
            inner.rekey firstKey = inner) ∧
          ∀ id, id ∈ (graph.replace target.id replacement).ids ↔
            ∃ inner, Occurs inner result ∧ inner.id = id) := by
  refine ⟨?_, fun valid => exists_fires_of_log valid, ?_⟩
  · intro plan valid copies order maxIterations firstKey rule target before fires
    obtain ⟨rfl, _, _, _, eliminates⟩ := fires.eliminates valid
    have exported := OptimizerRun.perform_plan eliminates.worksOn
    obtain ⟨⟨node, represents, rfl⟩, fresh⟩ := eliminates.worksOn
    obtain ⟨vertex, member, rfl⟩ := represents.occurs_iff.mp eliminates.occurs
    obtain ⟨aggregate, input, eliminable⟩ :=
      (represents.labels.checked member).eliminable eliminates.distinct
    have replaceable := OptimizerRun.replaceable_templateOf represents member eliminable fresh
    have graftable := replaceable.graftable
    have id : (node vertex.id).id = vertex.id := replaceable.id_label replaceable.target_mem
    have bound : Binding.bind? Rule.distinctElimination.pattern (node vertex.id) =
        some ⟨node vertex.id, []⟩ := by
      rw [bind?_pattern, if_pos eliminates.distinct]
    have applied := OptimizerRun.perform_attempt_eq replaceable eliminable
    refine ⟨_, _, _, _, _, exported, eliminates.occurs, bound,
      congrArg Prod.fst (fire_eq eliminable before.nextId (before.firstKey + before.nextId)), ?_,
      ?_, applied, fires.passesThrough valid applied, OptimizerRun.perform_plan ⟨⟨_, graftable.represents_replace, graftable.plan_replace⟩,
        replaceable.fresh_replace⟩, graftable.isSubstitution, ?_, ?_⟩
    · exact fun inner occurs => fresh inner.id (represents.eq_label occurs).1
    · exact fun inner => replaceable.new_or_below
    · rw [id]
      exact fun other => replaceable.occurs_image
    · rw [id]
      exact fun inner => replaceable.of_occurs_substitute
  · intro graph firstKey node target replacement represents member built types known unique
    refine ⟨fun same => if_pos same, ?_⟩
    intro apart
    have graftable := represents.graftable_rekey member built types known unique apart
    rw [← graph.replace_rekey target.id replacement]
    refine ⟨_, represents.toPlan_eq, graftable.represents_replace.toPlan_eq, ?_, ?_, ?_⟩
    · rw [graftable.plan_replace]
      exact graftable.isSubstitution
    · exact fun inner occurs placed => represents.rekey_eq
        ((known inner occurs placed).trans graftable.target_occurs)
    · rw [graftable.plan_replace]
      exact fun id => graftable.mem_ids_replace

end Optimizer

namespace Sample

/-- The orders, numbered as a run numbers them. -/
def numberedOrders : PlanNode := .assemble 7 0 orders.operator []

/-- The customers over these orders. -/
def numberedCustomers : PlanNode := .assemble 8 1 customers.operator [numberedOrders]

/-- The orders of each customer are counted twice, all of them and the distinct ones. -/
def joinedCounts : PlanNode :=
  .assemble 14 7 (.join .inner ((Expr.column 0 .utf8).equal (.column 2 .utf8)))
    [.assemble 10 3 (.aggregate ⟨1, [⟨.count, false, [1], .int64⟩]⟩) [numberedOrders],
      .assemble 13 6 (.aggregate ⟨1, [⟨.count, false, [1], .int64⟩]⟩)
        [.assemble 12 5 (.aggregate ⟨2, []⟩)
          [.assemble 11 4
            (.projection [.column 0 .utf8, .column 1 .int64] ["customer", "item"])
            [numberedOrders]]]]

/-- What the elimination puts in the place of the customers. -/
def plainCustomers : PlanNode :=
  .assemble 15 8 (.projection [.column 0 .utf8, .column 3 .int64, .column 1 .int64]
    ["customer", "COUNT(DISTINCT $1)", "COUNT($1)"]) [joinedCounts]

/-- The pairs of the rows of a plan, with the number of `pairs`. -/
def numberedPairs (customers : PlanNode) : PlanNode :=
  .assemble 9 2 pairs.operator [customers, customers]

/-- The elimination puts other nodes in the place of the customers. -/
theorem fire_numberedCustomers :
    (Rule.distinctElimination.fire ⟨numberedCustomers, []⟩ 3 10).1 = .ok (some plainCustomers) :=
  rfl

theorem relabel_pairs :
    relabel 7 (pairs.nodes.map (·.key)) pairs = numberedPairs numberedCustomers := rfl

/-- The customers are the only node with a distinct call. -/
theorem eq_numberedCustomers {node : PlanNode}
    (occurs : Occurs node (numberedPairs numberedCustomers))
    (distinct : node.operator.hasDistinctCall = true) : node = numberedCustomers := by
  rw [← relabel_pairs] at occurs
  exact List.mem_singleton.mp (mem_of_distinct_relabel occurs_pairs.mp occurs distinct)

end Sample

namespace Optimizer

/-- `replacement_exact` for the pairs of customers: for the elimination, which puts
one new plan in both places of the customers, and for a limit that is put between
the pairs and the customers. -/
theorem replacement_exact_pairs :
    (∃ before after,
      (eliminating 1 .topDown 1).Fires Sample.pairs 7 .distinctElimination
        Sample.numberedCustomers before ∧
      (eliminating 1 .topDown 1).PassesThrough Sample.pairs 7 .distinctElimination
        Sample.numberedCustomers before after ∧
      Step.perform OptimizerRun.plan before =
        (.ok (Sample.numberedPairs Sample.numberedCustomers), before) ∧
      Step.perform OptimizerRun.plan after =
        (.ok (Sample.numberedPairs Sample.plainCustomers), after) ∧
      IsSubstitution Sample.numberedCustomers Sample.plainCustomers
        (Sample.numberedPairs Sample.numberedCustomers)
        (Sample.numberedPairs Sample.plainCustomers)) ∧
    let keys := Sample.pairs.nodes.map (·.key)
    let customers := relabel 0 keys Sample.customers
    let limited : PlanNode := .assemble 9 9 (.limit 3) [customers]
    ∃ result, ((PlanDag.ofPlan Sample.pairs).replace customers.id limited).toPlan 0 = .ok result ∧
      IsSubstitution customers (limited.rekey 0) (relabel 0 keys Sample.pairs) result := by
  constructor
  · obtain ⟨target, before, fires, eliminates⟩ :=
      exists_fires Sample.pairs_valid (by simp [Sample.eliminationCount_pairs]) 0 .topDown 0 7
    rw [Sample.relabel_pairs] at eliminates
    obtain rfl := Sample.eq_numberedCustomers eliminates.occurs eliminates.distinct
    obtain ⟨current, binding, replacement, after, result, exported, _, bound, fired, _, _, _,
      passes, resultExported, substitution, _⟩ := replacement_exact.1 Sample.pairs_valid fires
    have same := (OptimizerRun.perform_plan eliminates.worksOn).symm.trans exported
    obtain rfl := Except.ok.inj (Prod.mk.inj same).1
    obtain rfl : binding = ⟨Sample.numberedCustomers, []⟩ := Option.some.inj bound.symm
    obtain rfl : replacement = Sample.plainCustomers := by
      obtain ⟨events, _, rfl⟩ := eliminates.idle
      have expected := Sample.fire_numberedCustomers.symm.trans fired
      exact (Option.some.inj (Except.ok.inj expected)).symm
    obtain rfl := substitution.eq
    exact ⟨before, after, fires, passes, exported, resultExported, substitution⟩
  · intro keys customers limited
    have represents := @represents_ofPlan 0 Sample.pairs Sample.pairs_valid
    have root := @placeLabel_root 0 Sample.pairs Sample.pairs_valid.coherent
    have inPlan : Occurs customers
        (placeLabel 0 Sample.pairs.nodes (PlanDag.ofPlan Sample.pairs).root) := by
      rw [root]
      exact occurs_relabel (Sample.occurs_pairs.mpr (by simp))
    have placed {inner : PlanNode} (below : Occurs inner customers) :
        inner.id ∈ (PlanDag.ofPlan Sample.pairs).ids :=
      (represents.eq_label (below.trans inPlan)).1
    have unplaced : limited.id ∉ (PlanDag.ofPlan Sample.pairs).ids := fun member =>
      absurd (fresh_ofPlan Sample.pairs_valid.coherent 9 member) (by decide)
    have occurs_limited {inner : PlanNode} (occurs : Occurs inner limited) :
        inner = limited ∨ Occurs inner customers := by
      rcases occurs_iff.mp occurs with rfl | ⟨input, member, inside⟩
      · exact .inl rfl
      · obtain rfl := List.mem_singleton.mp member
        exact .inr inside
    have built : limited.Built := by
      apply built_assemble (.limit 3 customers.types)
      intro input member
      obtain rfl := List.mem_singleton.mp member
      exact represents.built.of_occurs inPlan
    obtain ⟨vertex, member, same⟩ := represents.occurs_iff.mp inPlan
    have id : vertex.id = customers.id := by
      rw [← same, represents.labels.id_eq (List.mem_map_of_mem member)]
    have known (inner : PlanNode) (occurs : Occurs inner limited)
        (listed : inner.id ∈ (PlanDag.ofPlan Sample.pairs).ids) :
        Occurs inner (placeLabel 0 Sample.pairs.nodes vertex.id) := by
      rw [same]
      rcases occurs_limited occurs with rfl | below
      · exact absurd listed unplaced
      · exact below
    have new {inner : PlanNode} (occurs : Occurs inner limited)
        (absent : inner.id ∉ (PlanDag.ofPlan Sample.pairs).ids) : inner = limited :=
      (occurs_limited occurs).resolve_right fun below => absent (placed below)
    have apart : limited.id ≠ vertex.id := by
      rw [id]
      exact fun equal => unplaced (equal ▸ placed .here)
    obtain ⟨_, replaced⟩ := replacement_exact.2.2 represents member built
      (show customers.types = _ from congrArg PlanNode.types same.symm) known
      fun left right leftOccurs rightOccurs absent equal =>
        (new leftOccurs absent).trans (new rightOccurs (equal ▸ absent)).symm
    obtain ⟨result, _, exported, substitution, _⟩ := replaced apart
    rw [same, root] at substitution
    rw [id] at exported
    exact ⟨result, exported, substitution⟩

end Optimizer

end QueryPlan
