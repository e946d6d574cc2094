import QueryPlan.Proofs.Graph.Levels
import QueryPlan.Proofs.Graph.Renumbering
import QueryPlan.Proofs.Run.Record
import QueryPlan.Proofs.Run.Sharing

/-!
# Order of firings

The nodes of a plan are visited by their distances from the root, or the other
way round, so a rule fires at a node that is nearest to the root among those
where it binds, or farthest from it. Distances follow the order of a tree, but
not that of every plan: a node that is read far down and also near the root is
visited before a node above it (`Sample.crossed`).

Where no way leads around a node at which the rule binds, the nodes below it are
farther from the root, and firings respect the order of the plan. Eliminations do
not open a way around a node that is left.
-/

namespace QueryPlan

open DistinctElimination PlanNode

namespace PlanNode

/-- Whether all nodes with a distinct call guard a plan. -/
def Guarded (plan : PlanNode) : Prop :=
  ∀ guard, Occurs guard plan → guard.operator.hasDistinctCall = true → Guards guard plan

/-- New numbers do not open a way around a node. -/
theorem Guarded.relabel {plan : PlanNode} (guarded : plan.Guarded) (coherent : plan.Coherent)
    (firstKey : Nat) : (relabel firstKey (plan.nodes.map (·.key)) plan).Guarded := by
  let renamed := QueryPlan.relabel firstKey (plan.nodes.map (·.key))
  let related := fun image original : PlanNode => Occurs original plan ∧ image = renamed original
  have shadows : Shadows related := by
    rintro _ original ⟨occurs, rfl⟩ input member
    rw [inputs_relabel] at member
    obtain ⟨other, isInput, rfl⟩ := List.mem_map.mp member
    exact ⟨other, ⟨(Occurs.input isInput).trans occurs, rfl⟩, .inr isInput⟩
  have injective {left right : PlanNode} (leftOccurs : Occurs left plan)
      (rightOccurs : Occurs right plan) (same : renamed left = renamed right) : left = right := by
    apply number_injective coherent leftOccurs rightOccurs
    have ids := congrArg PlanNode.id same
    rwa [id_relabel, id_relabel] at ids
  intro guard occurs distinct
  obtain ⟨original, present, rfl⟩ := exists_of_occurs_relabel occurs
  rw [operator_relabel] at distinct
  refine shadows.guards ?_ ?_ ⟨.here, rfl⟩ (guarded original present distinct)
  · rintro inner left right ⟨leftOccurs, rfl⟩ ⟨rightOccurs, same⟩
    exact injective leftOccurs rightOccurs same
  · exact fun other => ⟨fun ⟨_, same⟩ => same, fun same => ⟨present, same⟩⟩

end PlanNode

namespace Replaceable

variable {graph : PlanDag} {firstKey : Nat} {node : Nat → PlanNode} {target : Vertex}
  {template : Template} {nextId : Nat}

section Origins

variable (graph firstKey node target template nextId)

/-- Which node of the plan a node after the replacement stands for: itself with
the replacement in it, or the replaced node if it is new. -/
def Origin (image original : PlanNode) : Prop :=
  (Occurs original (node graph.root) ∧ original.id ≠ target.id ∧
      image = substitute target.id (replacement firstKey template nextId) original) ∨
    image ∈ created firstKey template nextId ∧ original = node target.id

end Origins

/-- What takes the place of a node stands for it. -/
theorem origin_substitute (replaceable : Replaceable graph firstKey node target template nextId)
    {original : PlanNode} (occurs : Occurs original (node graph.root)) :
    Origin graph firstKey node target template nextId
      (substitute target.id (replacement firstKey template nextId) original) original := by
  by_cases same : original.id = target.id
  · refine .inr ⟨?_, ?_⟩
    · rw [substitute_eq, if_pos same]
      exact (Template.place_of_new replaceable.new _ _).1
    · apply replaceable.represents.eq_of_id occurs replaceable.graftable.target_occurs
      rw [same, replaceable.id_label replaceable.target_mem]
  · exact .inl ⟨occurs, same, rfl⟩

theorem shadows (replaceable : Replaceable graph firstKey node target template nextId) :
    Shadows (Origin graph firstKey node target template nextId) := by
  rintro image original (⟨occurs, apart, rfl⟩ | ⟨new, rfl⟩) input member
  · rw [(substitute_of_ne apart).2.2.2] at member
    obtain ⟨other, isInput, rfl⟩ := List.mem_map.mp member
    exact ⟨other, replaceable.origin_substitute ((Occurs.input isInput).trans occurs), .inr isInput⟩
  · rcases Template.input_of_created template new member with leaf | made
    · obtain ⟨id, reads, rfl⟩ := (replaceable.leaves input).mp leaf
      have isInput := replaceable.represents.labels.mem_inputs replaceable.member reads
      have kept := replaceable.graftable.substitute_below (.input isInput)
        fun same => not_occurs_input isInput (same ▸ .here)
      have origin := replaceable.origin_substitute
        ((Occurs.input isInput).trans replaceable.graftable.target_occurs)
      rw [kept] at origin
      exact ⟨node id, origin, .inr isInput⟩
    · exact ⟨_, .inr ⟨made, rfl⟩, .inl rfl⟩

/-- A node after the replacement stands for one node. -/
theorem origin_functional (replaceable : Replaceable graph firstKey node target template nextId)
    {image left right : PlanNode} (toLeft : Origin graph firstKey node target template nextId image left)
    (toRight : Origin graph firstKey node target template nextId image right) : left = right := by
  have id_substitute {original : PlanNode} (apart : original.id ≠ target.id) :
      (substitute target.id (replacement firstKey template nextId) original).id = original.id :=
    (substitute_of_ne apart).2.1
  have old {original : PlanNode} (occurs : Occurs original (node graph.root))
      (apart : original.id ≠ target.id) :
      substitute target.id (replacement firstKey template nextId) original ∉
        created firstKey template nextId := by
    intro new
    have larger := (Template.id_of_created new).1
    rw [id_substitute apart] at larger
    have listed := (replaceable.represents.eq_label occurs).1
    exact absurd larger (Nat.not_le_of_lt (replaceable.fresh original.id listed))
  rcases toLeft with ⟨leftOccurs, leftApart, rfl⟩ | ⟨leftNew, rfl⟩ <;>
    rcases toRight with ⟨rightOccurs, rightApart, same⟩ | ⟨rightNew, rfl⟩
  · apply replaceable.represents.eq_of_id leftOccurs rightOccurs
    rw [← id_substitute leftApart, same, id_substitute rightApart]
  · exact absurd rightNew (old leftOccurs leftApart)
  · exact absurd (same ▸ leftNew) (old rightOccurs rightApart)
  · rfl

/-- A replacement without distinct calls opens no way around a node that has one. -/
theorem guarded (replaceable : Replaceable graph firstKey node target template nextId)
    (undistinct : ∀ operator ∈ template.operators, operator.hasDistinctCall = false)
    (guarded : (node graph.root).Guarded) :
    (substitute target.id (replacement firstKey template nextId) (node graph.root)).Guarded := by
  intro guard occurs distinct
  have root := replaceable.origin_substitute (Occurs.here : Occurs (node graph.root) _)
  obtain ⟨original, ⟨present, apart, rfl⟩ | ⟨new, rfl⟩, _⟩ :=
    replaceable.shadows.exists_occurs occurs root
  · have operator : (substitute target.id (replacement firstKey template nextId) original).operator =
        original.operator := (substitute_of_ne apart).2.2.1
    rw [operator] at distinct
    refine replaceable.shadows.guards (fun _ _ _ => replaceable.origin_functional) ?_ root
      (guarded original present distinct)
    intro other
    constructor
    · rintro (⟨_, _, same⟩ | ⟨_, rfl⟩)
      · exact same
      · exact absurd (replaceable.id_label replaceable.target_mem) apart
    · exact fun same => .inl ⟨present, apart, same⟩
  · have plain := undistinct guard.operator (by
      rw [← Template.map_operator_created template (firstKey + nextId) nextId]
      exact List.mem_map_of_mem new)
    rw [plain] at distinct
    exact Bool.noConfusion distinct

end Replaceable

namespace OptimizerRun

variable {run before after : OptimizerRun} {plan : PlanNode}

/-- A run works on one plan. -/
theorem WorksOn.unique {other : PlanNode} (works : run.WorksOn plan) (again : run.WorksOn other) :
    plan = other := by
  have exported := (perform_plan works).symm.trans (perform_plan again)
  simpa using exported

/-- Whether a run works on a guarded plan. -/
def IsGuarded (run : OptimizerRun) : Prop := ∃ plan, run.WorksOn plan ∧ plan.Guarded

theorem IsGuarded.transition (guarded : before.IsGuarded) (step : Transition before after) :
    after.IsGuarded := by
  obtain ⟨plan, works, guards⟩ := guarded
  cases step with
  | idle idle => exact ⟨plan, (idle.progress works).worksOn, guards⟩
  | @elimination node vertex aggregate input replaceable eliminable result =>
      obtain rfl : plan = node before.graph.root :=
        works.unique ⟨⟨node, replaceable.represents, rfl⟩, replaceable.fresh⟩
      have plain := plain_templateOf eliminable
      rw [replaceable.id_label replaceable.target_mem]
      exact ⟨_, ⟨⟨_, replaceable.graftable.represents_replace, replaceable.graftable.plan_replace⟩,
        replaceable.fresh_replace⟩,
        replaceable.guarded (fun operator made => (plain operator made).undistinct) guards⟩

theorem IsGuarded.transitions (guarded : before.IsGuarded) (steps : Transitions before after) :
    after.IsGuarded := by
  induction steps with
  | refl => exact guarded
  | tail _ step ih => exact ih.transition step

/-- Nodes are visited in the order of their distances, or the other way round. -/
theorem visits_pairwise {node : Nat → PlanNode}
    (represents : Represents run.graph run.firstKey node) (order : VisitOrder) :
    ((visited run.graph order).map fun vertex => node vertex.id).Pairwise fun first second =>
      (order = .topDown → NoFarther first second (node run.graph.root)) ∧
        (order = .bottomUp → NoFarther second first (node run.graph.root)) := by
  rw [List.pairwise_map]
  cases order with
  | topDown => exact represents.breadthFirst_pairwise.imp fun nearer => ⟨fun _ => nearer, VisitOrder.noConfusion⟩
  | bottomUp =>
      rw [visited, List.pairwise_reverse]
      exact represents.breadthFirst_pairwise.imp fun nearer => ⟨VisitOrder.noConfusion, fun _ => nearer⟩

end OptimizerRun

namespace Optimizer

variable {plan : PlanNode} {copies : Nat} {order : VisitOrder} {maxIterations firstKey : Nat}

/-- An elimination takes a node that is nearest to the root, or farthest from it,
among all nodes with a distinct call. -/
theorem Eliminates.level {run before : OptimizerRun} {current node : PlanNode}
    (eliminates : Eliminates order run current node before) {other : PlanNode}
    (occurs : Occurs other current) (distinct : other.operator.hasDistinctCall = true) :
    (order = .topDown → NoFarther node other current) ∧
      (order = .bottomUp → NoFarther other node current) := by
  obtain ⟨earlier, later, listed, undistinct⟩ := eliminates.visits
  obtain ⟨label, represents, rfl⟩ := eliminates.worksOn.represents
  have visited := OptimizerRun.perform_visits_eq represents order
  have nodes := Except.ok.inj (Prod.mk.inj (visited.symm.trans listed)).1
  have sorted := OptimizerRun.visits_pairwise represents order
  rw [nodes] at sorted
  have member : other ∈ earlier ++ node :: later := by
    rw [← nodes, List.mem_map]
    obtain ⟨vertex, present, rfl⟩ := represents.occurs_iff.mp occurs
    exact ⟨vertex, (OptimizerRun.mem_visited represents order).mpr present, rfl⟩
  rcases List.mem_append.mp member with early | late
  · exact absurd (undistinct other early) (by simp [distinct])
  · rcases List.mem_cons.mp late with rfl | after
    · exact ⟨fun _ steps reached => ⟨steps, Nat.le_refl steps, reached⟩,
        fun _ steps reached => ⟨steps, Nat.le_refl steps, reached⟩⟩
    · exact List.rel_of_pairwise_cons (List.pairwise_append.mp sorted).2.1 after

/-- The elimination binds at the nodes with a distinct call. -/
theorem binds_iff {node : PlanNode} :
    (Binding.bind? Rule.distinctElimination.pattern node).isSome ↔
      node.operator.hasDistinctCall = true := by
  rw [bind?_pattern]
  cases node.operator.hasDistinctCall <;> simp

/-- Firings go by the distance from the root: a top-down optimizer fires a rule at
a node that is nearest to it among those where the rule binds, a bottom-up
optimizer at one that is farthest from it. So a node above the one of a top-down
firing, or below the one of a bottom-up firing, is a node where the rule binds
only if a way to the lower node leads around the upper one. If no way of the plan
that is optimized leads around a node where the rule binds to one below it, then
there is no such node, and neither if no node of that plan has two readers.

The optimization passes through each of these firings, and no other one is on its
record. -/
theorem firing_order (valid : plan.Valid) :
    (∀ {rule : Rule} {node : PlanNode} {before : OptimizerRun},
      (eliminating copies order maxIterations).Fires plan firstKey rule node before →
      (∃ after, (eliminating copies order maxIterations).PassesThrough plan firstKey rule node
        before after) ∧
      ∃ current, Step.perform OptimizerRun.plan before = (.ok current, before) ∧
        Occurs node current ∧
        (∀ other, Occurs other current → (Binding.bind? rule.pattern other).isSome →
          (order = .topDown → NoFarther node other current) ∧
          (order = .bottomUp → NoFarther other node current)) ∧
        (∀ other, Occurs other current → other ≠ node → (Binding.bind? rule.pattern other).isSome →
          (order = .topDown → Occurs node other → OccursAvoiding other node current) ∧
          (order = .bottomUp → Occurs other node → OccursAvoiding node other current)) ∧
        ((∀ guard, Occurs guard plan → (Binding.bind? rule.pattern guard).isSome →
            Guards guard plan) →
          ∀ other, Occurs other current → other ≠ node → (Binding.bind? rule.pattern other).isSome →
            (order = .topDown → ¬Occurs node other) ∧ (order = .bottomUp → ¬Occurs other node)) ∧
        ((∀ left right, Occurs left plan → Occurs right plan →
            ∀ input ∈ left.inputs, input ∈ right.inputs → left = right) →
          ∀ other, Occurs other current → other ≠ node → (Binding.bind? rule.pattern other).isSome →
            (order = .topDown → ¬Occurs node other) ∧ (order = .bottomUp → ¬Occurs other node))) ∧
    ∀ {early : List Event} {name : String} {operator : Operator},
      early ++ [.trying name operator] <+:
        ((eliminating copies order maxIterations).optimize plan firstKey).log →
      ∃ rule node before,
        (eliminating copies order maxIterations).Fires plan firstKey rule node before ∧
        rule.name = name ∧ node.operator = operator ∧ before.log.reverse = early := by
  refine ⟨?_, fun recorded => exists_fires_of_log valid recorded⟩
  intro rule node before fires
  obtain ⟨rfl, run, current, transitions, eliminates⟩ := fires.eliminates valid
  obtain ⟨_, _, after, applied, _⟩ := eliminates.perform_attempt
  have avoiding {other : PlanNode} (occurs : Occurs other current) (apart : other ≠ node)
      (distinct : other.operator.hasDistinctCall = true) :
      (order = .topDown → OccursAvoiding other node current) ∧
        (order = .bottomUp → OccursAvoiding node other current) := by
    obtain ⟨down, up⟩ := eliminates.level occurs distinct
    exact ⟨fun isDown => (down isDown).avoiding apart.symm eliminates.occurs,
      fun isUp => (up isUp).avoiding apart occurs⟩
  have respects (guarded : plan.Guarded) {other : PlanNode} (occurs : Occurs other current)
      (apart : other ≠ node) (distinct : other.operator.hasDistinctCall = true) :
      (order = .topDown → ¬Occurs node other) ∧ (order = .bottomUp → ¬Occurs other node) := by
    have start : (OptimizerRun.start plan firstKey).IsGuarded :=
      ⟨_, OptimizerRun.worksOn_start valid firstKey,
        Guarded.relabel guarded valid.coherent firstKey⟩
    obtain ⟨same, works, guards⟩ := start.transitions (transitions.tail (.idle eliminates.idle))
    obtain rfl := works.unique eliminates.worksOn
    obtain ⟨down, up⟩ := avoiding occurs apart distinct
    exact ⟨fun isDown below => guards other occurs distinct node below apart.symm (down isDown),
      fun isUp below => guards node eliminates.occurs eliminates.distinct other below apart
        (up isUp)⟩
  simp only [binds_iff]
  refine ⟨⟨after, fires.passesThrough valid applied⟩, current,
    OptimizerRun.perform_plan eliminates.worksOn, eliminates.occurs,
    fun other occurs distinct => eliminates.level occurs distinct, ?_, ?_, ?_⟩
  · intro other occurs apart distinct
    obtain ⟨down, up⟩ := avoiding occurs apart distinct
    exact ⟨fun isDown _ => down isDown, fun isUp _ => up isUp⟩
  · exact fun guarded other occurs apart distinct => respects guarded occurs apart distinct
  · intro single other occurs apart distinct
    have guarded : plan.Guarded := fun guard present _ => guards_of_single_reader single present
    exact respects guarded occurs apart distinct

end Optimizer

namespace Sample

/-- Distinct sums over the counts of the customers. -/
def itemTotals : Aggregate := ⟨1, [⟨.sum, true, [1], .int64⟩]⟩

def totals : PlanNode := .assemble 2 2 (.aggregate itemTotals) [customers]

def someTotals : PlanNode := .assemble 3 3 (.limit 5) [totals]

/-- Joins the customers with some of the totals, which are made from them. The
customers are below the totals, but nearer to the root. -/
def crossed : PlanNode :=
  .assemble 4 4 (.join .inner (.literal (.boolean true))) [someTotals, customers]

theorem totals_built : totals.Built := by
  have fits : itemTotals.Fits customers.types.length := by
    refine ⟨by decide, ?_⟩
    intro call member
    obtain rfl := List.mem_singleton.mp member
    exact ⟨by simp, by decide⟩
  apply built_assemble (.aggregate fits)
  intro input member
  obtain rfl : input = customers := List.mem_singleton.mp member
  exact customers_built

theorem occurs_totals {node : PlanNode} :
    Occurs node totals ↔ node ∈ [totals, customers, orders] := by
  rw [occurs_iff, totals]
  simp [assemble, occurs_customers]

theorem totals_valid : totals.Valid :=
  ⟨totals_built, @coherent_of_listed totals [totals, customers, orders] (by decide)
    fun _ => occurs_totals.mp⟩

/-- No node of the totals has two readers. -/
theorem single_reader_totals (left right : PlanNode) (leftOccurs : Occurs left totals)
    (rightOccurs : Occurs right totals) (input : PlanNode) (isLeft : input ∈ left.inputs)
    (isRight : input ∈ right.inputs) : left = right := by
  have reads {node : PlanNode} (occurs : Occurs node totals) (isInput : input ∈ node.inputs) :
      node = totals ∧ input = customers ∨ node = customers ∧ input = orders := by
    have listed := occurs_totals.mp occurs
    simp only [List.mem_cons, List.not_mem_nil, or_false] at listed
    rcases listed with rfl | rfl | rfl
    · exact .inl ⟨rfl, List.mem_singleton.mp isInput⟩
    · exact .inr ⟨rfl, List.mem_singleton.mp isInput⟩
    · exact absurd isInput List.not_mem_nil
  have apart : customers ≠ orders := fun same => absurd (congrArg PlanNode.key same) (by decide)
  rcases reads leftOccurs isLeft with ⟨rfl, isCustomers⟩ | ⟨rfl, isOrders⟩
  · rcases reads rightOccurs isRight with ⟨rfl, _⟩ | ⟨rfl, isOrders⟩
    · rfl
    · exact absurd (isCustomers.symm.trans isOrders) apart
  · rcases reads rightOccurs isRight with ⟨rfl, isCustomers⟩ | ⟨rfl, _⟩
    · exact absurd (isCustomers.symm.trans isOrders) apart
    · rfl

theorem distinct_totals {firstKey : Nat} {keys : List Nat} {node : PlanNode}
    (occurs : Occurs node (relabel firstKey keys totals))
    (distinct : node.operator.hasDistinctCall = true) :
    node = relabel firstKey keys totals ∨ node = relabel firstKey keys customers :=
  List.mem_pair.mp (mem_of_distinct_relabel occurs_totals.mp occurs distinct)

theorem eliminationCount_totals : Rule.eliminationCount totals = 2 :=
  @Rule.eliminationCount_of_listed totals totals_valid.coherent [totals, customers, orders]
    (by decide) fun _ => occurs_totals.symm

theorem occurs_crossed {node : PlanNode} :
    Occurs node crossed ↔ node ∈ [crossed, someTotals, totals, customers, orders] := by
  have occurs_someTotals : Occurs node someTotals ↔ node ∈ [someTotals, totals, customers, orders] := by
    rw [occurs_iff, someTotals]
    simp [assemble, occurs_totals]
  rw [occurs_iff, crossed]
  simp only [assemble, List.mem_cons, List.not_mem_nil, or_false, exists_eq_or_imp,
    exists_eq_left, occurs_someTotals, occurs_customers]
  tauto

theorem crossed_valid : crossed.Valid := by
  constructor
  · apply built_assemble (.join .inner (.literal _))
    intro input member
    rcases List.mem_pair.mp member with rfl | rfl
    · apply built_assemble (.limit 5 totals.types)
      intro input member
      obtain rfl : input = totals := List.mem_singleton.mp member
      exact totals_built
    · exact customers_built
  · exact @coherent_of_listed crossed [crossed, someTotals, totals, customers, orders] (by decide)
      fun _ => occurs_crossed.mp

theorem eliminationCount_crossed : Rule.eliminationCount crossed = 2 :=
  @Rule.eliminationCount_of_listed crossed crossed_valid.coherent
    [crossed, someTotals, totals, customers, orders] (by decide) fun _ => occurs_crossed.symm

theorem distinct_crossed {keys : List Nat} {node : PlanNode}
    (occurs : Occurs node (relabel 0 keys crossed)) (distinct : node.operator.hasDistinctCall = true) :
    node = relabel 0 keys totals ∨ node = relabel 0 keys customers :=
  List.mem_pair.mp (mem_of_distinct_relabel occurs_crossed.mp occurs distinct)

theorem totals_ne_customers {firstKey : Nat} (keys : List Nat) :
    relabel firstKey keys totals ≠ relabel firstKey keys customers := by
  intro same
  have operators := congrArg PlanNode.operator same
  rw [operator_relabel, operator_relabel] at operators
  exact absurd (Operator.aggregate.inj operators) (by decide)

/-- The customers are nearer to the root than the totals. -/
theorem customers_nearer (keys : List Nat) :
    ¬NoFarther (relabel 0 keys totals) (relabel 0 keys customers) (relabel 0 keys crossed) := by
  intro noFarther
  have near : OccursAt (relabel 0 keys customers) 1 (relabel 0 keys crossed) := by
    refine .under ?_ .here
    rw [inputs_relabel]
    exact List.mem_map_of_mem (by simp [crossed, assemble])
  have apart {other : PlanNode} (differs : totals.operator ≠ other.operator) :
      relabel 0 keys totals ≠ relabel 0 keys other := by
    intro same
    have operators := congrArg PlanNode.operator same
    rw [operator_relabel, operator_relabel] at operators
    exact differs operators
  obtain ⟨fewer, atMost, reached⟩ := noFarther 1 near
  rcases Nat.le_one_iff_eq_zero_or_eq_one.mp atMost with rfl | rfl
  · exact @apart crossed Operator.noConfusion (occursAt_zero.mp reached)
  · obtain ⟨reader, atRoot, reads⟩ := reached.exists_reader
    rw [occursAt_zero.mp atRoot, inputs_relabel] at reads
    obtain ⟨input, member, same⟩ := List.mem_map.mp reads
    rcases List.mem_pair.mp member with rfl | rfl
    · exact @apart someTotals Operator.noConfusion same.symm
    · exact totals_ne_customers keys same.symm

end Sample

namespace Optimizer

/-- `firing_order` for totals of counts, where no node has two readers. The counts
come first, and the totals above them are still there. -/
theorem firing_order_totals :
    ∃ node before current after,
      (eliminating 2 .bottomUp 3).Fires Sample.totals 7 .distinctElimination node before ∧
      (eliminating 2 .bottomUp 3).PassesThrough Sample.totals 7 .distinctElimination node before
        after ∧
      Step.perform OptimizerRun.plan before = (.ok current, before) ∧ Occurs node current ∧
      node.operator = Sample.customers.operator ∧
      ∀ other, Occurs other current → other ≠ node →
        (Binding.bind? Rule.distinctElimination.pattern other).isSome → ¬Occurs other node := by
  obtain ⟨node, before, fires, eliminates⟩ :=
    exists_fires Sample.totals_valid (by simp [Sample.eliminationCount_totals]) 1 .bottomUp 2 7
  obtain ⟨⟨after, passes⟩, current, exported, occurs, _, _, _, respects⟩ :=
    (firing_order Sample.totals_valid).1 fires
  have lowest (other : PlanNode) (present : Occurs other current) (apart : other ≠ node)
      (binds : (Binding.bind? Rule.distinctElimination.pattern other).isSome) :
      ¬Occurs other node :=
    (respects Sample.single_reader_totals other present apart binds).2 rfl
  refine ⟨node, before, current, after, fires, passes, exported, occurs, ?_, lowest⟩
  have same := (OptimizerRun.perform_plan eliminates.worksOn).symm.trans exported
  obtain rfl := Except.ok.inj (Prod.mk.inj same).1
  rcases Sample.distinct_totals occurs eliminates.distinct with rfl | rfl
  · -- The totals are not lowest, as the counts are below them.
    have below := Sample.occurs_totals.mpr (List.mem_cons_of_mem _ List.mem_cons_self)
    exact absurd (occurs_relabel below)
      (lowest _ (occurs_relabel below) (Sample.totals_ne_customers _).symm (binds_iff.mpr rfl))
  · exact operator_relabel Sample.customers

/-- Firings do not respect the order of every plan. A top-down optimizer fires the
rule at the customers of `Sample.crossed` before the totals above them, and a
bottom-up optimizer at the totals before the customers below them. -/
theorem firing_across :
    (¬∀ node before current,
      (eliminating 1 .topDown 1).Fires Sample.crossed 0 .distinctElimination node before →
      Step.perform OptimizerRun.plan before = (.ok current, before) →
      ∀ other, Occurs other current → Occurs node other → other ≠ node →
        Binding.bind? Rule.distinctElimination.pattern other = none) ∧
    ¬∀ node before current,
      (eliminating 1 .bottomUp 1).Fires Sample.crossed 0 .distinctElimination node before →
      Step.perform OptimizerRun.plan before = (.ok current, before) →
      ∀ other, Occurs other current → Occurs other node → other ≠ node →
        Binding.bind? Rule.distinctElimination.pattern other = none := by
  let keys := Sample.crossed.nodes.map (·.key)
  have inPlan : Occurs (relabel 0 keys Sample.totals) (relabel 0 keys Sample.crossed) :=
    occurs_relabel (Sample.occurs_crossed.mpr (by simp))
  have below : Occurs (relabel 0 keys Sample.customers) (relabel 0 keys Sample.totals) :=
    occurs_relabel (Sample.occurs_totals.mpr (by simp))
  have unbound {node : PlanNode} (distinct : node.operator.hasDistinctCall = true) :
      Binding.bind? Rule.distinctElimination.pattern node ≠ none := by
    rw [← Option.isSome_iff_ne_none]
    exact binds_iff.mpr distinct
  constructor
  · intro respects
    obtain ⟨node, before, fires, eliminates⟩ := exists_fires Sample.crossed_valid
      (by simp [Sample.eliminationCount_crossed]) 0 .topDown 0 0
    have exported := OptimizerRun.perform_plan eliminates.worksOn
    rcases Sample.distinct_crossed eliminates.occurs eliminates.distinct with rfl | rfl
    · exact Sample.customers_nearer keys ((eliminates.level (below.trans inPlan) rfl).1 rfl)
    · exact unbound rfl (respects _ before _ fires exported _ inPlan below
        (Sample.totals_ne_customers keys))
  · intro respects
    obtain ⟨node, before, fires, eliminates⟩ := exists_fires Sample.crossed_valid
      (by simp [Sample.eliminationCount_crossed]) 0 .bottomUp 0 0
    have exported := OptimizerRun.perform_plan eliminates.worksOn
    rcases Sample.distinct_crossed eliminates.occurs eliminates.distinct with rfl | rfl
    · exact unbound rfl (respects _ before _ fires exported _ (below.trans inPlan) below
        (Sample.totals_ne_customers keys).symm)
    · exact Sample.customers_nearer keys ((eliminates.level inPlan rfl).2 rfl)

end Optimizer

end QueryPlan
