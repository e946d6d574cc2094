import QueryPlan.Optimizer.Basic
import QueryPlan.Proofs.Elimination.Requests
import QueryPlan.Proofs.Plan.Building
import QueryPlan.Proofs.Plan.Construction

/-!
# Plans that can come about

Nodes are built one by one, plans are rewritten by the elimination, and
optimizers take plans apart and export new ones. All of these make their nodes
with `PlanNode.build`, so every node of such a plan is one that is accepted over
its inputs, with the fields that its operator derives from theirs.
-/

namespace QueryPlan

open PlanNode

namespace PlanDag

/-- What is exported from a vertex over built nodes is built. -/
theorem built_of_exportVertex {firstKey : Nat} {nodes : List PlanNode} {vertex : Vertex}
    {node : PlanNode} (built : ∀ other ∈ nodes, other.Built)
    (exported : exportVertex firstKey nodes vertex = .ok node) : node.Built := by
  apply built_of_build exported
  intro input member
  rcases List.mem_filterMap.mp member with ⟨id, _, found⟩
  exact built input (List.mem_of_find?_eq_some found)

/-- The export makes built nodes of all vertices, whatever they are. -/
theorem built_of_export {firstKey : Nat} {vertices : List Vertex} {before after : List PlanNode}
    (built : ∀ node ∈ before, node.Built)
    (exported : vertices.foldlM (fun nodes vertex => do
      return (← exportVertex firstKey nodes vertex) :: nodes) before = .ok after) :
    ∀ node ∈ after, node.Built := by
  induction vertices generalizing before with
  | nil =>
      obtain rfl := Except.ok.inj exported
      exact built
  | cons vertex rest ih =>
      rw [List.foldlM_cons] at exported
      cases first : exportVertex firstKey before vertex with
      | error error =>
          rw [first] at exported
          exact nomatch exported
      | ok node =>
          rw [first] at exported
          refine ih ?_ exported
          exact List.forall_mem_cons.mpr ⟨built_of_exportVertex built first, built⟩

theorem built_of_toPlan {graph : PlanDag} {firstKey : Nat} {plan : PlanNode}
    (exported : graph.toPlan firstKey = .ok plan) : plan.Built := by
  rw [toPlan] at exported
  cases nodes : graph.nodes firstKey with
  | error error =>
      rw [nodes] at exported
      exact nomatch exported
  | ok built =>
      rw [nodes] at exported
      cases root : built.find? (·.id == graph.root) with
      | none =>
          simp only [bind, Except.bind, root] at exported
          exact nomatch exported
      | some found =>
          simp only [bind, Except.bind, root] at exported
          obtain rfl := Except.ok.inj exported
          exact built_of_export (by simp) nodes _ (List.mem_of_find?_eq_some root)

end PlanDag

/-- The result of any optimizer is an export of its graph. -/
theorem Optimizer.built_of_optimize {optimizer : Optimizer} {plan result : PlanNode}
    {firstKey : Nat} (optimized : (optimizer.optimize plan firstKey).plan = .ok result) :
    result.Built := by
  simp only [optimize, Step.perform_bind] at optimized
  generalize Step.perform _ (OptimizerRun.start plan firstKey) = iterated at optimized
  rcases iterated with ⟨failure | _, run⟩
  · exact nomatch optimized
  · simp only [OptimizerRun.plan, Step.perform_bind, Step.perform_get] at optimized
    cases exported : run.graph.toPlan run.firstKey with
    | error error =>
        rw [exported] at optimized
        exact nomatch optimized
    | ok plan =>
        rw [exported] at optimized
        obtain rfl := Except.ok.inj optimized
        exact PlanDag.built_of_toPlan exported

/-- What the elimination proposes for a built root is built. -/
theorem Rule.built_of_fire {binding : Binding} {nextId nextKey : Nat} {node : PlanNode}
    (built : binding.root.Built)
    (fired : (distinctElimination.fire binding nextId nextKey).1 = .ok (some node)) :
    node.Built := by
  have offered : Firing.Request.eliminate.offer? (.start binding nextId nextKey) = some node := by
    simp only [Firing.Request.offer?, Firing.start, fired]
  have checked : (Firing.start binding nextId nextKey).binding.root.Checked := built _ .here
  cases distinct : binding.root.operator.hasDistinctCall with
  | false =>
      rw [Firing.Request.offer?_eliminate_of_undistinct checked distinct] at offered
      simp at offered
  | true =>
      rcases checked.eliminable distinct with ⟨aggregate, input, eliminable⟩
      rw [Firing.Request.offer?_eliminate_of_distinct eliminable] at offered
      obtain rfl := Option.some.inj offered
      exact (Elimination.place_spec built .here distinct nextKey nextId).2

namespace PlanBuilder

/-- Whether a call reads a plan besides that of the builder. -/
def Call.Reads (call : Call) (right : PlanNode) : Prop :=
  ∃ key kind condition, call = .add key (.join kind condition right)

/-- The inputs of a new node are the plan of the builder and what a join reads. -/
theorem Step.mem_inputs {step : Step} {root? : Option PlanNode} {inputs : List PlanNode}
    (rooted : step.inputs root? = .ok inputs) {input : PlanNode} (member : input ∈ inputs) :
    root? = some input ∨ ∃ kind condition, step = .join kind condition input := by
  cases step with
  | scan table fields =>
      obtain rfl := Except.ok.inj rooted
      exact absurd member List.not_mem_nil
  | filter | projection | aggregate | limit =>
      cases root? with
      | none => exact nomatch rooted
      | some root =>
          obtain rfl := Except.ok.inj rooted
          exact .inl (congrArg some (List.mem_singleton.mp member).symm)
  | join kind condition right =>
      cases root? with
      | none => exact nomatch rooted
      | some root =>
          obtain rfl := Except.ok.inj rooted
          rcases List.mem_pair.mp member with rfl | rfl
          · exact .inl rfl
          · exact .inr ⟨kind, condition, rfl⟩

/-- A builder keeps a built plan, and gives out no other. -/
theorem Call.Effect.built {before after : PlanBuilder} {call : Call}
    {outcome : Except PlanError (Option PlanNode)} (effect : call.Effect before outcome after)
    (reads : ∀ right, call.Reads right → right.Built)
    (root : ∀ node, before.root? = some node → node.Built) :
    (∀ node, after.root? = some node → node.Built) ∧
      ∀ plan, outcome = .ok (some plan) → plan.Built := by
  cases effect with
  | unrooted _ | rejected _ _ | empty _ => exact ⟨root, by simp⟩
  | @added key step inputs node rooted built =>
      refine ⟨?_, by simp⟩
      intro other equal
      obtain rfl := Option.some.inj equal
      apply built_of_build built
      intro input member
      rcases Step.mem_inputs rooted member with isRoot | ⟨kind, condition, rfl⟩
      · exact root input isRoot
      · exact reads input ⟨key, kind, condition, rfl⟩
  | @taken plan present =>
      refine ⟨by simp, ?_⟩
      intro other equal
      obtain rfl := Option.some.inj (Except.ok.inj equal)
      exact root _ present

/-- Whatever is called for, a builder gives out built plans. -/
theorem built_of_history {builder : PlanBuilder} {calls : List Call}
    (reads : ∀ call ∈ calls, ∀ right, call.Reads right → right.Built)
    (root : ∀ node, builder.root? = some node → node.Built) {entry : Entry}
    (member : entry ∈ history builder calls) {plan : PlanNode} (taken : entry.taken? = some plan) :
    plan.Built := by
  induction calls generalizing builder with
  | nil => simp [history] at member
  | cons call rest ih =>
      obtain ⟨callReads, restReads⟩ := List.forall_mem_cons.mp reads
      obtain ⟨after, outcome⟩ := (call.effect_perform builder).built callReads root
      rcases List.mem_cons.mp member with rfl | later
      · exact outcome plan (Entry.taken?_eq_some_iff.mp taken)
      · exact ih restReads after later

end PlanBuilder

namespace PlanNode

/-- The plans that can come about: a node over such plans, what a builder gives
out, what the elimination proposes for such a plan, and the result of an
optimizer. -/
inductive Reachable : PlanNode → Prop
  | built {key id : Nat} {operator : Operator} {inputs : List PlanNode} {node : PlanNode} :
      (∀ input ∈ inputs, Reachable input) → build key id operator inputs = .ok node →
      Reachable node
  | taken {calls : List PlanBuilder.Call} {entry : PlanBuilder.Entry} {plan : PlanNode} :
      (∀ call ∈ calls, ∀ right, call.Reads right → Reachable right) →
      entry ∈ PlanBuilder.history .empty calls → entry.taken? = some plan → Reachable plan
  | proposed {binding : Binding} {nextId nextKey : Nat} {node : PlanNode} :
      Reachable binding.root →
      (Rule.distinctElimination.fire binding nextId nextKey).1 = .ok (some node) → Reachable node
  | optimized {optimizer : Optimizer} {plan result : PlanNode} {firstKey : Nat} :
      (optimizer.optimize plan firstKey).plan = .ok result → Reachable result

/-- The plans that can come about are those whose nodes were all built. -/
theorem reachable_iff_built {plan : PlanNode} : plan.Reachable ↔ plan.Built := by
  constructor
  · intro reachable
    induction reachable with
    | built _ accepted inputs => exact built_of_build accepted inputs
    | taken _ member taken reads =>
        exact PlanBuilder.built_of_history reads (by simp [PlanBuilder.empty]) member taken
    | proposed _ fired root => exact Rule.built_of_fire root fired
    | optimized optimized => exact Optimizer.built_of_optimize optimized
  · intro built
    induction plan using PlanNode.induct with
    | node key id operator inputs schema ih =>
        exact .built (fun input member => ih input member (built.input member)) (built _ .here)

/-- A node is built exactly when it has as many inputs as its operator takes and
the operator accepts them, and it gets the fields that follow from theirs.
Otherwise an error says what is malformed and, unless the inputs are too few or
too many, which operator was to be built; no check reaches for an input that is
not there. So every node of a plan that can come about is accepted over its
inputs and has the fields that follow from theirs. -/
theorem build_well_formed (key id : Nat) (operator : Operator) (inputs : List PlanNode) :
    let schemas := inputs.map (·.schema)
    ((∃ node, build key id operator inputs = .ok node) ↔
        inputs.length = operator.arity ∧ operator.Accepts schemas) ∧
      (∀ node, build key id operator inputs = .ok node →
        node = ⟨key, id, operator, inputs, operator.fields schemas⟩) ∧
      (∀ error, build key id operator inputs = .error error →
        inputs.length ≠ operator.arity ∧
            error = ⟨[], .malformed (.arity operator inputs.length)⟩ ∨
          inputs.length = operator.arity ∧
            ∃ cause, error = ⟨[.building operator], .malformed cause⟩) ∧
      (inputs.length = operator.arity →
        ∀ violation, operator.outputSchemaUnguarded schemas ≠ .error (.violation violation)) ∧
      ∀ plan : PlanNode, plan.Reachable → ∀ node, Occurs node plan →
        node.inputs.length = node.operator.arity ∧
          node.operator.Accepts (node.inputs.map (·.schema)) ∧
          node.schema = node.operator.fields (node.inputs.map (·.schema)) := by
  intro schemas
  refine ⟨exists_build_iff, fun node accepted => (typed_of_build accepted).2,
    fun error => error_of_build, ?_,
    fun plan reachable node => (reachable_iff_built.mp reachable).accepts⟩
  intro arity violation
  exact Operator.outputSchemaUnguarded_ne_violation (by rwa [List.length_map]) violation

/-- `build_well_formed` for an aggregate over a table, and for a filter whose
predicate is no condition. -/
theorem build_well_formed_customers :
    (∃ node, build 1 1 (.aggregate Sample.itemCounts) [Sample.orders] = .ok node ∧
        node.schema.names = ["customer", "COUNT(DISTINCT $1)", "COUNT($1)"]) ∧
      (∃ cause, build 1 1 (.filter (.column 0 .utf8)) [Sample.orders] =
        .error ⟨[.building (.filter (.column 0 .utf8))], .malformed cause⟩) ∧
      ∀ node, Occurs node Sample.customers →
        node.schema = node.operator.fields (node.inputs.map (·.schema)) := by
  obtain ⟨accepted, shape, _, _, wellFormed⟩ :=
    build_well_formed 1 1 (.aggregate Sample.itemCounts) [Sample.orders]
  obtain ⟨refused, _, reported, _, _⟩ :=
    build_well_formed 1 1 (.filter (.column 0 .utf8)) [Sample.orders]
  obtain ⟨node, built⟩ := accepted.mpr ⟨rfl, by decide, by decide⟩
  refine ⟨⟨node, built, ?_⟩, ?_, ?_⟩
  · rw [shape node built]
    rfl
  · cases outcome : build 1 1 (.filter (.column 0 .utf8)) [Sample.orders] with
    | ok node =>
        obtain ⟨_, typed⟩ := refused.mp ⟨node, outcome⟩
        cases typed
    | error error =>
        rcases reported error outcome with ⟨miscounted, _⟩ | ⟨_, cause, equal⟩
        · exact absurd rfl miscounted
        · exact ⟨cause, congrArg Except.error equal⟩
  · intro inner occurs
    exact (wellFormed _ (reachable_iff_built.mpr Sample.customers_built) inner occurs).2.2

end PlanNode

end QueryPlan
