import QueryPlan.Proofs.Graph.Renumbering
import QueryPlan.Proofs.Run.Optimization

/-!
# Runs in which no rule fires

Whatever its rules do, an optimizer fires none exactly when it may not iterate
or when no rule binds at a node of the plan. Its run then skips every rule at
every node, and the result is the import of the plan as it is exported: the plan
with its nodes numbered anew.
-/

namespace QueryPlan

open PlanNode

namespace Pattern

variable {firstKey : Nat} {keys : List Nat}

mutual
/-- A pattern does not see the numbers of nodes. -/
theorem match?_relabel (pattern : Pattern) (node : PlanNode) :
    pattern.match? (relabel firstKey keys node) =
      (pattern.match? node).map (List.map (relabel firstKey keys)) := by
  match pattern with
  | any accepts =>
      rw [match?, match?, operator_relabel]
      split <;> rfl
  | leaf accepts =>
      rw [match?, match?, operator_relabel, inputs_relabel]
      simp only [List.map_eq_nil_iff]
      split <;> rfl
  | withInputs accepts inputs =>
      rw [match?, match?, operator_relabel, inputs_relabel, matchAll?_relabel inputs]
      split
      · cases matchAll? inputs node.inputs <;> rfl
      · rfl

theorem matchAll?_relabel (patterns : List Pattern) (nodes : List PlanNode) :
    matchAll? patterns (nodes.map (relabel firstKey keys)) =
      (matchAll? patterns nodes).map (List.map (relabel firstKey keys)) := by
  match patterns, nodes with
  | [], [] => rfl
  | [], _ :: _ => rfl
  | _ :: _, [] => rfl
  | pattern :: rest, node :: others =>
      rw [List.map_cons, matchAll?, matchAll?, match?_relabel pattern, matchAll?_relabel rest]
      cases pattern.match? node with
      | none => rfl
      | some first =>
          cases matchAll? rest others with
          | none => rfl
          | some later => exact congrArg some List.map_append.symm
end

end Pattern

namespace Rule

/-- Whether none of the rules binds at a node of the plan. -/
def Unbound (rules : List Rule) (plan : PlanNode) : Prop :=
  ∀ rule ∈ rules, ∀ node, Occurs node plan → Binding.bind? rule.pattern node = none

theorem bind?_relabel_eq_none {firstKey : Nat} {keys : List Nat} (pattern : Pattern)
    (node : PlanNode) :
    Binding.bind? pattern (relabel firstKey keys node) = none ↔
      Binding.bind? pattern node = none := by
  simp only [Binding.bind?, Pattern.match?_relabel, Option.map_eq_none_iff]

theorem unbound_relabel {firstKey : Nat} {keys : List Nat} {rules : List Rule} {plan : PlanNode} :
    Unbound rules (relabel firstKey keys plan) ↔ Unbound rules plan := by
  constructor
  · intro unbound rule member node occurs
    exact (bind?_relabel_eq_none _ _).mp (unbound rule member _ (occurs_relabel occurs))
  · intro unbound rule member node occurs
    rcases exists_of_occurs_relabel occurs with ⟨original, present, rfl⟩
    exact (bind?_relabel_eq_none _ _).mpr (unbound rule member original present)

/-- Copies of the elimination bind nowhere in a plan without distinct calls. -/
theorem unbound_of_undistinct {rules : List Rule} {plan : PlanNode}
    (copies : ∀ rule ∈ rules, rule = distinctElimination)
    (undistinct : ∀ node, Occurs node plan → node.operator.hasDistinctCall = false) :
    Unbound rules plan := by
  intro rule member node occurs
  rw [copies rule member]
  exact DistinctElimination.bind?_of_undistinct (undistinct node occurs)

end Rule

namespace OptimizerRun

/-- Number of times that a rule was fired. -/
def triedCount (run : OptimizerRun) : Nat := run.log.countP Event.isTrying

theorem Idle.triedCount_eq {before after : OptimizerRun} (idle : Idle before after) :
    after.triedCount = before.triedCount :=
  idle.countP_log fun _ _ => rfl

/-- Whether a step never takes back the record of a fired rule. -/
def Grows {α : Type} (step : OptimizerStep α) : Prop :=
  ∀ run : OptimizerRun, run.triedCount ≤ (Step.perform step run).2.triedCount

section Grows

variable {α β : Type}

theorem grows_pure (value : α) : Grows (pure value) := fun _ => Nat.le_refl _

theorem grows_bind {step : OptimizerStep α} {next : α → OptimizerStep β} (first : Grows step)
    (later : ∀ value, Grows (next value)) : Grows (step >>= next) := by
  intro run
  rw [Step.perform_bind]
  have grown := first run
  generalize Step.perform step run = outcome at grown
  rcases outcome with ⟨error | value, middle⟩
  · exact grown
  · exact Nat.le_trans grown (later value middle)

theorem grows_record (event : Event) : Grows (record event) := by
  intro run
  rw [perform_record, triedCount, triedCount, List.countP_cons]
  exact Nat.le_add_right _ _

theorem grows_ofExcept (value : Except PlanError α) : Grows (Step.ofExcept value) := by
  cases value <;> exact fun _ => Nat.le_refl _

theorem grows_plan : Grows plan :=
  grows_bind (fun _ => Nat.le_refl _) fun _ => grows_ofExcept _

theorem grows_visits (order : VisitOrder) : Grows (visits order) :=
  grows_bind (fun _ => Nat.le_refl _) fun _ =>
    grows_bind (grows_ofExcept _) fun _ => grows_pure _

/-- The records of a firing come on top of those of the run. -/
theorem grows_fire (rule : Rule) (binding : Binding) : Grows (fire rule binding) := by
  intro run
  simp only [fire, Step.perform_bind, Step.perform_get]
  rcases rule.fire binding run.nextId (run.firstKey + run.nextId) with ⟨result, firing⟩
  have grown : run.triedCount ≤
      triedCount { run with nextId := firing.nextId, log := firing.log.reverse ++ run.log } := by
    simp only [triedCount, List.countP_append]
    exact Nat.le_add_left _ _
  rcases result with (error | violation) | replacement? <;> exact grown

end Grows

/-- Outcome of a search for a place where a rule binds: there is none, and
everything was skipped, or there is one, and a rule was fired. -/
inductive Probed (unbound : Prop) (run : OptimizerRun) : Except Failure Bool × OptimizerRun → Prop
  | idle {later : OptimizerRun} : unbound → Idle run later → Probed unbound run (.ok false, later)
  | fired {outcome : Except Failure Bool × OptimizerRun} :
      ¬unbound → run.triedCount < outcome.2.triedCount → Probed unbound run outcome

namespace Probed

variable {unbound other : Prop} {run : OptimizerRun}
  {outcome : Except Failure Bool × OptimizerRun}

theorem congr (probed : Probed unbound run outcome) (same : unbound ↔ other) :
    Probed other run outcome := by
  rwa [← propext same]

theorem triedCount_le (probed : Probed unbound run outcome) :
    run.triedCount ≤ outcome.2.triedCount := by
  cases probed with
  | idle _ idle => exact Nat.le_of_eq idle.triedCount_eq.symm
  | fired _ more => exact Nat.le_of_lt more

end Probed

/-- A rule is fired where it binds and skipped elsewhere. -/
theorem probed_attempt (node : PlanNode) (rule : Rule) (run : OptimizerRun) :
    Probed (Binding.bind? rule.pattern node = none) run (Step.perform (attempt node rule) run) := by
  rw [attempt]
  cases Binding.bind? rule.pattern node with
  | none => exact .idle rfl ⟨[.skipped rule.name node.operator], by simp, rfl⟩
  | some binding =>
      refine .fired (by simp) ?_
      rw [Step.perform_bind, perform_record]
      have recorded : run.triedCount <
          triedCount { run with log := .trying rule.name node.operator :: run.log } := by
        rw [triedCount, triedCount, List.countP_cons_of_pos rfl]
        exact Nat.lt_succ_self _
      -- Whatever the firing and the replacement come to, this record stays.
      refine Nat.lt_of_lt_of_le recorded (grows_bind (grows_fire rule binding) ?_ _)
      rintro (none | replacement)
      · exact grows_pure _
      · simp only
        split
        · exact grows_pure _
        · exact grows_bind (fun _ => Nat.le_refl _) fun _ => grows_bind grows_plan fun _ =>
            grows_bind (grows_record _) fun _ => grows_pure _

/-- A search goes on as long as nothing is found. -/
theorem probed_anyM {α : Type} {unbound : α → Prop} {test : α → OptimizerStep Bool}
    (probed : ∀ value run, Probed (unbound value) run (Step.perform (test value) run))
    (values : List α) (run : OptimizerRun) :
    Probed (∀ value ∈ values, unbound value) run (Step.perform (values.anyM test) run) := by
  induction values generalizing run with
  | nil => exact .idle (by simp) (.refl run)
  | cons first rest ih =>
      have here := probed first run
      rw [Step.perform_anyM_cons]
      generalize Step.perform (test first) run = outcome at here
      cases here with
      | @idle between none idle =>
          have later := ih between
          simp only
          generalize Step.perform _ between = outcome at later
          cases later with
          | idle others further =>
              exact .idle (List.forall_mem_cons.mpr ⟨none, others⟩) (idle.trans further)
          | fired bound more =>
              rw [idle.triedCount_eq] at more
              exact .fired (fun all => bound (List.forall_mem_cons.mp all).2) more
      | fired bound more =>
          refine .fired (fun all => bound (List.forall_mem_cons.mp all).1) ?_
          rcases outcome with ⟨error | (_ | _), between⟩
          · exact more
          · exact Nat.lt_of_lt_of_le more (ih between).triedCount_le
          · exact more

/-- Trying rules at nodes, all rules at one node after the other. -/
theorem probed_nodes (rules : List Rule) (nodes : List PlanNode) (run : OptimizerRun) :
    Probed (∀ node ∈ nodes, ∀ rule ∈ rules, Binding.bind? rule.pattern node = none) run
      (Step.perform (nodes.anyM fun node => rules.anyM (attempt node)) run) :=
  probed_anyM (fun node run => probed_anyM (probed_attempt node) rules run) nodes run

theorem grows_iterations (optimizer : Optimizer) (remaining done : Nat) :
    Grows (iterations optimizer remaining done) := by
  have iterate : Grows (iterate optimizer) :=
    grows_bind (grows_visits _) fun nodes run =>
      (probed_nodes optimizer.rules nodes run).triedCount_le
  induction remaining generalizing done with
  | zero => exact grows_pure _
  | succ remaining ih =>
      refine grows_bind iterate ?_
      rintro (_ | _)
      · exact grows_record _
      · exact ih _

section Optimize

variable {run : OptimizerRun} {plan : PlanNode}

/-- An iteration fires a rule when one binds at a node of the plan. -/
theorem probed_iterate (works : run.WorksOn plan) (optimizer : Optimizer) :
    Probed (Rule.Unbound optimizer.rules plan) run (Step.perform (iterate optimizer) run) := by
  rcases perform_visits works optimizer.order with ⟨nodes, visited, listed⟩
  rw [iterate, Step.perform_bind, visited]
  apply (probed_nodes optimizer.rules nodes run).congr
  simp only [listed]
  exact ⟨fun none rule member node occurs => none node occurs rule member,
    fun none node occurs rule member => none rule member node occurs⟩

/-- Iterations that fire no rule leave the plan as it is. -/
theorem perform_iterations_of_unbound (works : run.WorksOn plan) {optimizer : Optimizer}
    {remaining : Nat} (unbound : remaining = 0 ∨ Rule.Unbound optimizer.rules plan) (done : Nat) :
    ∃ later, Step.perform (iterations optimizer remaining done) run = (.ok (), later) ∧
      later.WorksOn plan ∧ later.triedCount = run.triedCount := by
  cases remaining with
  | zero => exact ⟨run, rfl, works, rfl⟩
  | succ remaining =>
      have none : Rule.Unbound optimizer.rules plan := unbound.resolve_left (Nat.succ_ne_zero _)
      have probed := probed_iterate works optimizer
      rw [iterations, Step.perform_bind]
      generalize Step.perform (iterate optimizer) run = outcome at probed
      cases probed with
      | @idle later _ idle =>
          refine ⟨later.report (done + 1), rfl, (idle.progress works).worksOn.report _, ?_⟩
          rw [← idle.triedCount_eq]
          exact List.countP_cons_of_neg Bool.noConfusion
      | fired bound _ => exact absurd none bound

/-- A rule that binds is fired in the first iteration. -/
theorem triedCount_lt_iterations (works : run.WorksOn plan) {optimizer : Optimizer}
    (bound : ¬Rule.Unbound optimizer.rules plan) (remaining done : Nat) :
    run.triedCount <
      (Step.perform (iterations optimizer (remaining + 1) done) run).2.triedCount := by
  have probed := probed_iterate works optimizer
  rw [iterations, Step.perform_bind]
  generalize Step.perform (iterate optimizer) run = outcome at probed
  cases probed with
  | idle none _ => exact absurd none bound
  | fired _ more =>
      rcases outcome with ⟨error | (_ | _), later⟩
      · exact more
      · exact Nat.lt_of_lt_of_le more (grows_record _ later)
      · exact Nat.lt_of_lt_of_le more (grows_iterations optimizer remaining (done + 1) later)

end Optimize

end OptimizerRun

namespace Optimizer

variable {plan : PlanNode}

/-- The records of the iterations are among those of the optimization. -/
theorem triedCount_le_optimize (optimizer : Optimizer) (firstKey : Nat) :
    (Step.perform (OptimizerRun.iterations optimizer optimizer.maxIterations 0)
        (.start plan firstKey)).2.triedCount ≤
      (optimizer.optimize plan firstKey).log.countP Event.isTrying := by
  simp only [optimize, List.countP_reverse, Step.perform_bind]
  generalize Step.perform _ (OptimizerRun.start plan firstKey) = outcome
  rcases outcome with ⟨error | _, later⟩
  · exact Nat.le_refl _
  · exact OptimizerRun.grows_plan later

/-- An optimizer fires no rule when it may not iterate or when none binds. The
result is then the plan with its nodes numbered anew. -/
theorem optimize_unfired (valid : plan.Valid) (optimizer : Optimizer) (firstKey : Nat) :
    let optimization := optimizer.optimize plan firstKey
    (optimization.log.countP Event.isTrying = 0 ↔
        optimizer.maxIterations = 0 ∨ Rule.Unbound optimizer.rules plan) ∧
      (optimization.log.countP Event.isTrying = 0 →
        optimization.plan = .ok (relabel firstKey (plan.nodes.map (·.key)) plan)) := by
  intro optimization
  have works := OptimizerRun.worksOn_start valid firstKey
  have started : (OptimizerRun.start plan firstKey).triedCount = 0 := rfl
  by_cases idle : optimizer.maxIterations = 0 ∨ Rule.Unbound optimizer.rules plan
  · obtain ⟨later, performed, endedWorks, untried⟩ :=
      OptimizerRun.perform_iterations_of_unbound works (idle.imp_right Rule.unbound_relabel.mpr) 0
    have optimized : optimization = ⟨.ok (relabel firstKey (plan.nodes.map (·.key)) plan),
        firstKey + later.nextId, later.log.reverse⟩ := by
      simp only [optimization, optimize, Step.perform_bind, performed,
        OptimizerRun.perform_plan endedWorks]
    rw [optimized, List.countP_reverse]
    exact ⟨iff_of_true (untried.trans started) idle, fun _ => rfl⟩
  · rw [not_or] at idle
    obtain ⟨remaining, iterations⟩ := Nat.exists_eq_succ_of_ne_zero idle.1
    have fired := OptimizerRun.triedCount_lt_iterations works
      (mt Rule.unbound_relabel.mp idle.2) remaining 0
    have recorded := @triedCount_le_optimize plan optimizer firstKey
    rw [← Nat.succ_eq_add_one, ← iterations] at fired
    have some : 0 < optimization.log.countP Event.isTrying :=
      Nat.lt_of_le_of_lt (Nat.zero_le _) (Nat.lt_of_lt_of_le fired recorded)
    exact ⟨iff_of_false (Nat.ne_of_gt some) (not_or.mpr idle),
      fun none => absurd none (Nat.ne_of_gt some)⟩

/-- A run without firings takes a plan into its graph and out again: no rule is
fired exactly when none may be or none binds anywhere, and then the result lists
its nodes in the same order with the same operators, fields and places of
inputs. So it is equal to the plan and shares the same nodes; its ids are the
first numbers, each used once, with inputs before the nodes that read them. -/
theorem optimize_round_trip (valid : plan.Valid) (optimizer : Optimizer) (firstKey : Nat) :
    let optimization := optimizer.optimize plan firstKey
    let count := plan.breadthFirst.length
    (optimization.log.countP Event.isTrying = 0 ↔ optimizer.maxIterations = 0 ∨
        ∀ rule ∈ optimizer.rules, ∀ node, Occurs node plan →
          Binding.bind? rule.pattern node = none) ∧
      ((∀ rule ∈ optimizer.rules, rule = .distinctElimination) →
        (∀ node, Occurs node plan → node.operator.hasDistinctCall = false) →
        optimization.log.countP Event.isTrying = 0) ∧
      (optimization.log.countP Event.isTrying = 0 →
        ∃ result, optimization.plan = .ok result ∧
          (result.numbered.map fun entry => (entry.1.operator, entry.1.schema, entry.2)) =
            (plan.numbered.map fun entry => (entry.1.operator, entry.1.schema, entry.2)) ∧
          (result == plan) = true ∧
          (result.breadthFirst.map (·.id)).Perm (List.range count) ∧
          result.id + 1 = count ∧
          ∀ node, Occurs node result → ∀ input ∈ node.inputs, input.id < node.id) := by
  obtain ⟨unfired, exported⟩ := optimize_unfired valid optimizer firstKey
  refine ⟨unfired, ?_, ?_⟩
  · intro copies undistinct
    exact unfired.mpr (.inr (Rule.unbound_of_undistinct copies undistinct))
  · intro none
    have listed : ∀ node, Occurs node plan → node.key ∈ plan.nodes.map (·.key) :=
      fun node occurs => List.mem_map_of_mem ((mem_nodes valid.coherent).mpr occurs)
    exact ⟨_, exported none, numbered_relabel valid listed,
      (beq_iff _ _).mpr (form_relabel valid.built _ _), ids_relabel valid.coherent,
      id_root_relabel valid.coherent, fun node occurs => id_input_lt_relabel valid.coherent occurs⟩

/-- `optimize_round_trip` for a plan that reads a node twice and uses an id twice,
with an optimizer that may not iterate. -/
theorem optimize_round_trip_pairs :
    let optimization := (eliminating 1 .topDown 0).optimize Sample.pairs 7
    optimization.log.countP Event.isTrying = 0 ∧
      ∃ result, optimization.plan = .ok result ∧
        (result == Sample.pairs) = true ∧
        (result.breadthFirst.map (·.id)).Perm [0, 1, 2] ∧ result.id = 2 ∧
        ∀ node, Occurs node result → ∀ input ∈ node.inputs, input.id < node.id := by
  have count : Sample.pairs.breadthFirst.length = 3 := by decide +kernel
  obtain ⟨unfired, _, exported⟩ :=
    optimize_round_trip Sample.pairs_valid (eliminating 1 .topDown 0) 7
  have none := unfired.mpr (.inl rfl)
  obtain ⟨result, optimized, _, equal, ids, root, order⟩ := exported none
  rw [count] at ids root
  exact ⟨none, result, optimized, equal, ids, Nat.succ.inj root, order⟩

end Optimizer

end QueryPlan
