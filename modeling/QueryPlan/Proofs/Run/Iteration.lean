import QueryPlan.Optimizer.Basic
import QueryPlan.Proofs.Elimination.Step
import QueryPlan.Proofs.Graph.Replacement

/-!
# One iteration of the optimizer

An optimizer whose rules are copies of the elimination never fails on a graph
that represents a plan. An iteration either finds nothing to do, and then only
records what it skipped, or ends with the elimination of one node. The number of
vertices with a distinct call tells which: it drops by one with each
elimination, and an iteration finds nothing to do when it is zero.
-/

namespace QueryPlan

open DistinctElimination PlanNode

namespace Event

/-- Whether a rule was fired. -/
def isTrying : Event → Bool
  | trying .. => true
  | _ => false

/-- Whether a rule changed the plan. -/
def isApplied : Event → Bool
  | applied .. => true
  | _ => false

/-- The number of iterations after which a fixed point was reported. -/
def fixedPoint? : Event → Option Nat
  | fixedPoint iterations => some iterations
  | _ => none

end Event

namespace OptimizerRun

/-- Whether a run works on a plan: its graph represents the plan, and the ids
from the next one on are unused. -/
structure WorksOn (run : OptimizerRun) (plan : PlanNode) : Prop where
  represents : ∃ node, Represents run.graph run.firstKey node ∧ node run.graph.root = plan
  fresh : ∀ id ∈ run.graph.ids, id < run.nextId

/-- The plan of a run is valid. -/
theorem WorksOn.valid {run : OptimizerRun} {plan : PlanNode} (works : run.WorksOn plan) :
    plan.Valid := by
  rcases works with ⟨⟨node, represents, rfl⟩, _⟩
  exact represents.valid

/-- Number of vertices that are still to be eliminated. -/
def pending (run : OptimizerRun) : Nat :=
  run.graph.vertices.countP (·.operator.hasDistinctCall)

/-- Whether nothing happened between two runs but that rules were skipped. -/
def Idle (before after : OptimizerRun) : Prop :=
  ∃ events : List Event, (∀ event ∈ events, ∃ rule operator, event = .skipped rule operator) ∧
    after = { before with log := events ++ before.log }

/-- What happens to a run at a time: some rules are skipped, or the calls of a
vertex are eliminated, which uses ids and leaves its records. -/
inductive Transition : OptimizerRun → OptimizerRun → Prop
  | idle {before after : OptimizerRun} : Idle before after → Transition before after
  | elimination {run : OptimizerRun} {node : Nat → PlanNode} {vertex : Vertex}
      {aggregate : Aggregate} {input : PlanNode}
      (replaceable : Replaceable run.graph run.firstKey node vertex (templateOf (node vertex.id))
        run.nextId)
      (eliminable : (node vertex.id).Eliminable aggregate input) (plan : PlanNode) :
      Transition run
        ⟨run.graph.replace (node vertex.id).id
            ((templateOf (node vertex.id)).place (run.firstKey + run.nextId) run.nextId),
          run.firstKey, run.nextId + (templateOf (node vertex.id)).size,
          .applied name plan :: eventOf aggregate :: .trying name (node vertex.id).operator ::
            run.log⟩

/-- Any number of transitions, one after the other. -/
abbrev Transitions : OptimizerRun → OptimizerRun → Prop := Relation.ReflTransGen Transition

/-- A part of a run: the plan before it and after it, and how many eliminations
lie between them. All of them are on record, and no fixed point is. -/
structure Progress (count : Nat) (before : OptimizerRun) (plan : PlanNode) (after : OptimizerRun)
    (result : PlanNode) : Prop where
  worksOn : after.WorksOn result
  transitions : Transitions before after
  eliminations : Eliminations plan result
  pending : after.pending + count = before.pending
  tried : after.log.countP Event.isTrying = before.log.countP Event.isTrying + count
  applied : after.log.countP Event.isApplied = before.log.countP Event.isApplied + count
  fixedPoints : after.log.filterMap Event.fixedPoint? = before.log.filterMap Event.fixedPoint?

namespace Idle

variable {before middle after : OptimizerRun}

theorem refl (run : OptimizerRun) : Idle run run := ⟨[], by simp, rfl⟩

theorem trans (first : Idle before middle) (second : Idle middle after) : Idle before after := by
  rcases first with ⟨early, earlySkipped, rfl⟩
  rcases second with ⟨late, lateSkipped, rfl⟩
  refine ⟨late ++ early, ?_, ?_⟩
  · intro event member
    rcases List.mem_append.mp member with isLate | isEarly
    · exact lateSkipped event isLate
    · exact earlySkipped event isEarly
  · rw [List.append_assoc]

/-- Records that are not of skipped rules are as many as before. -/
theorem countP_log (idle : Idle before after) {counted : Event → Bool}
    (silent : ∀ rule operator, counted (.skipped rule operator) = false) :
    after.log.countP counted = before.log.countP counted := by
  rcases idle with ⟨events, skipped, rfl⟩
  have none : events.countP counted = 0 := by
    rw [List.countP_eq_zero]
    intro event member
    rcases skipped event member with ⟨rule, operator, rfl⟩
    rw [silent]
    exact Bool.noConfusion
  rw [List.countP_append, none, Nat.zero_add]

/-- A run that was idle still works on its plan, and has made no progress. -/
theorem progress (idle : Idle before after) {plan : PlanNode} (works : before.WorksOn plan) :
    Progress 0 before plan after plan := by
  have transitions : Transitions before after := .single (.idle idle)
  have tried := @countP_log _ _ idle Event.isTrying fun _ _ => rfl
  have applied := @countP_log _ _ idle Event.isApplied fun _ _ => rfl
  rcases idle with ⟨events, skipped, rfl⟩
  have unreported : events.filterMap Event.fixedPoint? = [] := by
    rw [List.filterMap_eq_nil_iff]
    intro event member
    rcases skipped event member with ⟨rule, operator, rfl⟩
    rfl
  refine ⟨⟨works.represents, works.fresh⟩, transitions, .refl, rfl, tried, applied, ?_⟩
  rw [List.filterMap_append, unreported, List.nil_append]

end Idle

theorem Progress.trans {first second : Nat} {before middle after : OptimizerRun}
    {plan between result : PlanNode} (early : Progress first before plan middle between)
    (late : Progress second middle between after result) :
    Progress (first + second) before plan after result where
  worksOn := late.worksOn
  transitions := early.transitions.trans late.transitions
  eliminations := early.eliminations.trans late.eliminations
  pending := by
    have earlier := early.pending
    have later := late.pending
    omega
  tried := by rw [late.tried, early.tried, Nat.add_assoc]
  applied := by rw [late.applied, early.applied, Nat.add_assoc]
  fixedPoints := late.fixedPoints.trans early.fixedPoints

@[simp] theorem perform_record (event : Event) (run : OptimizerRun) :
    Step.perform (record event) run = (.ok (), { run with log := event :: run.log }) := rfl

/-- Trying the elimination where it does not bind only leaves a record. -/
theorem perform_attempt_of_undistinct {node : PlanNode}
    (undistinct : node.operator.hasDistinctCall = false) (run : OptimizerRun) :
    ∃ later, Step.perform (attempt node .distinctElimination) run = (.ok false, later) ∧
      Idle run later := by
  have unbound := bind?_of_undistinct undistinct
  refine ⟨{ run with log := .skipped name node.operator :: run.log }, ?_, ?_⟩
  · rw [attempt, unbound]
    rfl
  · exact ⟨[.skipped name node.operator], by simp, rfl⟩

/-- The record that the elimination itself writes is of none of the counted kinds. -/
theorem eventOf_silent (aggregate : Aggregate) :
    (eventOf aggregate).isTrying = false ∧ (eventOf aggregate).isApplied = false ∧
      (eventOf aggregate).fixedPoint? = none := by
  rw [eventOf]
  cases aggregate.soleArguments? with
  | some args => exact ⟨rfl, rfl, rfl⟩
  | none => exact ⟨rfl, rfl, rfl⟩

/-- What firing the elimination in a run gives. -/
theorem perform_fire {target input : PlanNode} {aggregate : Aggregate}
    (eliminable : target.Eliminable aggregate input) (run : OptimizerRun) :
    Step.perform (fire .distinctElimination ⟨target, []⟩) run =
      (.ok (some ((templateOf target).place (run.firstKey + run.nextId) run.nextId)),
        { run with
          nextId := run.nextId + (templateOf target).size
          log := eventOf aggregate :: run.log }) := by
  simp only [fire, Step.perform_bind, Step.perform_get, fire_eq eliminable, Step.perform_set,
    Step.perform_pure, List.reverse_singleton, List.singleton_append]

/-- The elimination's template can replace the vertex of the node that it is for. -/
theorem replaceable_templateOf {graph : PlanDag} {firstKey nextId : Nat} {node : Nat → PlanNode}
    {vertex : Vertex} {aggregate : Aggregate} {input : PlanNode}
    (represents : Represents graph firstKey node) (member : vertex ∈ graph.vertices)
    (eliminable : (node vertex.id).Eliminable aggregate input)
    (fresh : ∀ id ∈ graph.ids, id < nextId) :
    Replaceable graph firstKey node vertex (templateOf (node vertex.id)) nextId where
  represents := represents
  member := member
  typed := typed_templateOf eliminable
  leaves := by
    intro leaf
    rw [mem_leaves_templateOf eliminable, ← List.mem_map, ← represents.labels.inputs_eq member,
      eliminable.inputs, List.mem_singleton]
  new := size_templateOf eliminable
  fresh := fresh

/-- What trying the elimination at an aggregate with distinct calls does to a run. -/
theorem perform_attempt_eq {run : OptimizerRun} {node : Nat → PlanNode} {vertex : Vertex}
    {aggregate : Aggregate} {input : PlanNode}
    (replaceable : Replaceable run.graph run.firstKey node vertex (templateOf (node vertex.id))
      run.nextId)
    (eliminable : (node vertex.id).Eliminable aggregate input) :
    let replacement := (templateOf (node vertex.id)).place (run.firstKey + run.nextId) run.nextId
    Step.perform (attempt (node vertex.id) .distinctElimination) run =
      (.ok true,
        ⟨run.graph.replace vertex.id replacement, run.firstKey,
          run.nextId + (templateOf (node vertex.id)).size,
          .applied name (substitute vertex.id replacement (node run.graph.root)) ::
            eventOf aggregate :: .trying name (node vertex.id).operator :: run.log⟩) := by
  intro replacement
  have differs : replacement.id ≠ vertex.id := replaceable.replacement_ne
  have bound := bind?_of_eliminable eliminable
  have exported : (run.graph.replace vertex.id replacement).toPlan run.firstKey =
      .ok (substitute vertex.id replacement (node run.graph.root)) := by
    rw [replaceable.graftable.represents_replace.toPlan_eq, replaceable.graftable.plan_replace]
  simp only [attempt, bound, Step.perform_bind, perform_record, perform_fire eliminable]
  rw [replaceable.id_label replaceable.target_mem, if_neg differs]
  simp only [Step.perform_bind, Step.perform_modify, OptimizerRun.plan, Step.perform_get]
  rw [exported]
  rfl

/-- Trying the elimination at an aggregate with distinct calls eliminates them. -/
theorem perform_attempt {run : OptimizerRun} {plan target : PlanNode} (works : run.WorksOn plan)
    (occurs : Occurs target plan) (distinct : target.operator.hasDistinctCall = true) :
    ∃ later result, Step.perform (attempt target .distinctElimination) run = (.ok true, later) ∧
      Progress 1 run plan later result := by
  rcases works with ⟨⟨node, represents, rfl⟩, fresh⟩
  rcases represents.occurs_iff.mp occurs with ⟨vertex, member, rfl⟩
  have id : (node vertex.id).id = vertex.id := represents.labels.id_eq (List.mem_map_of_mem member)
  rcases (represents.labels.checked member).eliminable distinct with ⟨aggregate, input, eliminable⟩
  have replaceable := replaceable_templateOf represents member eliminable fresh
  have counted := replaceable.countP_replace
    (by rwa [represents.labels.operator_eq member] at distinct)
    (fun new member => (plain_templateOf eliminable new member).undistinct)
  rcases eventOf_silent aggregate with ⟨untried, unapplied, unreported⟩
  refine ⟨_, _, perform_attempt_eq replaceable eliminable,
    ⟨⟨_, replaceable.graftable.represents_replace, replaceable.graftable.plan_replace⟩,
      replaceable.fresh_replace⟩, ?_, ?_, counted, ?_, ?_, ?_⟩
  · have step := Transition.elimination replaceable eliminable
      (substitute vertex.id (Replaceable.replacement run.firstKey (templateOf (node vertex.id))
        run.nextId) (node run.graph.root))
    rw [id] at step
    exact .single step
  · have step := Elimination.intro occurs (represents.pinned member) distinct
      (run.firstKey + run.nextId) run.nextId
    rw [id] at step
    exact .single step
  · simp only [List.countP_cons, untried]
    rfl
  · simp only [List.countP_cons, unapplied]
    rfl
  · simp only [List.filterMap_cons, unreported]
    rfl

section Visits

/-- The vertices in the order in which an iteration visits their nodes. -/
def visited (graph : PlanDag) : VisitOrder → List Vertex
  | .topDown => graph.breadthFirst
  | .bottomUp => graph.breadthFirst.reverse

variable {run : OptimizerRun} {node : Nat → PlanNode}

theorem mem_visited (represents : Represents run.graph run.firstKey node) (order : VisitOrder)
    {vertex : Vertex} : vertex ∈ visited run.graph order ↔ vertex ∈ run.graph.vertices := by
  cases order with
  | topDown => exact represents.mem_breadthFirst
  | bottomUp => exact List.mem_reverse.trans represents.mem_breadthFirst

/-- The visits of an iteration are to the nodes of the vertices. -/
theorem perform_visits_eq (represents : Represents run.graph run.firstKey node)
    (order : VisitOrder) :
    Step.perform (visits order) run =
      (.ok ((visited run.graph order).map fun vertex => node vertex.id), run) := by
  have found : (visited run.graph order).filterMap (fun vertex =>
        (run.graph.ids.reverse.map node).find? (·.id == vertex.id)) =
      (visited run.graph order).map fun vertex => node vertex.id := by
    apply filterMap_eq_map_of_some
    intro vertex member
    exact represents.find?_node (List.mem_map_of_mem ((mem_visited represents order).mp member))
  rw [← found]
  cases order <;> simp only [visits, visited, Step.perform_bind, Step.perform_get,
    represents.nodes_eq, Step.perform_ofExcept_ok, Step.perform_pure]

end Visits

section Iterate

variable {run : OptimizerRun} {plan : PlanNode}

/-- The visits of an iteration are to the nodes of the plan, each of them. -/
theorem perform_visits (works : run.WorksOn plan) (order : VisitOrder) :
    ∃ nodes, Step.perform (visits order) run = (.ok nodes, run) ∧
      ∀ node, node ∈ nodes ↔ Occurs node plan := by
  rcases works with ⟨⟨node, represents, rfl⟩, _⟩
  refine ⟨_, perform_visits_eq represents order, ?_⟩
  intro inner
  rw [represents.occurs_iff, List.mem_map]
  simp only [mem_visited represents]

/-- Nothing is pending when no node of the plan has a distinct call. -/
theorem pending_eq_zero (works : run.WorksOn plan)
    (undistinct : ∀ node, Occurs node plan → node.operator.hasDistinctCall = false) :
    run.pending = 0 := by
  rcases works with ⟨⟨node, represents, rfl⟩, _⟩
  rw [pending, List.countP_eq_zero]
  intro vertex member
  have none := undistinct _ (represents.occurs_iff.mpr ⟨vertex, member, rfl⟩)
  rw [represents.labels.operator_eq member] at none
  rw [none]
  exact Bool.noConfusion

/-- All copies of the rule are skipped at a node without distinct calls. -/
theorem perform_rules_of_undistinct {node : PlanNode}
    (undistinct : node.operator.hasDistinctCall = false) (copies : Nat) (run : OptimizerRun) :
    ∃ later,
      Step.perform ((List.replicate copies Rule.distinctElimination).anyM (attempt node)) run =
        (.ok false, later) ∧ Idle run later := by
  induction copies generalizing run with
  | zero => exact ⟨run, rfl, .refl run⟩
  | succ copies ih =>
      rcases perform_attempt_of_undistinct undistinct run with ⟨skipped, attempted, idle⟩
      rcases ih skipped with ⟨later, others, further⟩
      refine ⟨later, ?_, idle.trans further⟩
      rw [List.replicate_succ, Step.perform_anyM_cons, attempted]
      exact others

/-- Outcome of trying copies of the rule at some nodes: nothing, and then either
there is no copy or no node has a distinct call, or one elimination. -/
inductive Searched (copies : Nat) (nodes : List PlanNode) (run : OptimizerRun) (plan : PlanNode) :
    Except Failure Bool × OptimizerRun → Prop
  | nothing {later : OptimizerRun} (idle : Idle run later)
      (undistinct : copies ≠ 0 → ∀ node ∈ nodes, node.operator.hasDistinctCall = false) :
      Searched copies nodes run plan (.ok false, later)
  | elimination {later : OptimizerRun} {result : PlanNode} (some : copies ≠ 0)
      (progress : Progress 1 run plan later result) : Searched copies nodes run plan (.ok true, later)

/-- Trying the copies of the rule at one node. -/
theorem searched_node (works : run.WorksOn plan) (copies : Nat) {node : PlanNode}
    (inPlan : Occurs node plan) :
    Searched copies [node] run plan
      (Step.perform ((List.replicate copies Rule.distinctElimination).anyM (attempt node)) run) := by
  cases copies with
  | zero => exact .nothing (.refl run) (by simp)
  | succ copies =>
      cases distinct : node.operator.hasDistinctCall with
      | true =>
          rcases perform_attempt works inPlan distinct with ⟨later, result, attempted, progress⟩
          rw [List.replicate_succ, Step.perform_anyM_cons, attempted]
          exact .elimination (Nat.succ_ne_zero copies) progress
      | false =>
          rcases perform_rules_of_undistinct distinct (copies + 1) run with ⟨later, tried, idle⟩
          rw [tried]
          refine .nothing idle ?_
          intro _ other member
          rwa [List.mem_singleton.mp member]

/-- Trying the copies of the rule at one node of the plan after the other. -/
theorem searched_nodes (works : run.WorksOn plan) (copies : Nat) {nodes : List PlanNode}
    (inPlan : ∀ node ∈ nodes, Occurs node plan) :
    Searched copies nodes run plan (Step.perform (nodes.anyM fun node =>
      (List.replicate copies Rule.distinctElimination).anyM (attempt node)) run) := by
  induction nodes generalizing run with
  | nil => exact .nothing (.refl run) (by simp)
  | cons node rest ih =>
      have first := searched_node works copies (inPlan node List.mem_cons_self)
      have restInPlan : ∀ other ∈ rest, Occurs other plan :=
        fun other member => inPlan other (List.mem_cons_of_mem _ member)
      rw [Step.perform_anyM_cons]
      generalize Step.perform _ run = outcome at first
      cases first with
      | elimination some progress => exact .elimination some progress
      | @nothing between idle undistinct =>
          have progress := idle.progress works
          have others := ih progress.worksOn restInPlan
          simp only
          generalize Step.perform _ between = outcome at others
          cases others with
          | elimination some further =>
              have both := progress.trans further
              rw [Nat.zero_add] at both
              exact .elimination some both
          | nothing further none =>
              refine .nothing (idle.trans further) ?_
              intro some
              rw [List.forall_mem_cons]
              exact ⟨undistinct some node (List.mem_singleton_self node), none some⟩

end Iterate

end OptimizerRun

end QueryPlan
