import QueryPlan.Proofs.Graph.Import
import QueryPlan.Proofs.Plan.BreadthFirst
import QueryPlan.Proofs.Run.Iteration

/-!
# Runs of the optimizer

An optimizer that has the elimination for its only rule, any number of times,
eliminates one node per iteration until none is left or its iterations are used
up. So it never fails, its result has the rows of the plan, and the number of
places where the rule binds tells how many iterations it needs.
-/

namespace QueryPlan

open DistinctElimination PlanNode

/-- An optimizer whose rules are copies of the elimination. -/
def Optimizer.eliminating (copies : Nat) (order : VisitOrder) (maxIterations : Nat) : Optimizer :=
  ⟨List.replicate copies .distinctElimination, order, maxIterations⟩

namespace OptimizerRun

variable {run : OptimizerRun} {plan : PlanNode}

/-- Number of eliminations that copies of the rule will make, if allowed to. -/
def todo (copies : Nat) (run : OptimizerRun) : Nat := if copies = 0 then 0 else run.pending

/-- An iteration finds nothing to do, or ends with an elimination. -/
theorem perform_iterate (works : run.WorksOn plan) (copies : Nat) (order : VisitOrder)
    (maxIterations : Nat) :
    let outcome := Step.perform (iterate (.eliminating copies order maxIterations)) run
    (∃ later, outcome = (.ok false, later) ∧ Progress 0 run plan later plan ∧
        run.todo copies = 0) ∨
      ∃ later result, outcome = (.ok true, later) ∧ Progress 1 run plan later result ∧
        run.todo copies = later.todo copies + 1 := by
  rcases perform_visits works order with ⟨nodes, visited, listed⟩
  have searched := searched_nodes works copies fun node member => (listed node).mp member
  have outcome : Step.perform (iterate (.eliminating copies order maxIterations)) run =
      Step.perform (nodes.anyM fun node =>
        (List.replicate copies Rule.distinctElimination).anyM (attempt node)) run := by
    rw [iterate, Step.perform_bind, Optimizer.eliminating, visited]
  simp only [outcome]
  generalize Step.perform _ run = found at searched
  cases searched with
  | @nothing later idle undistinct =>
      refine .inl ⟨later, rfl, idle.progress works, ?_⟩
      rw [todo]
      split
      · rfl
      · rename_i some
        apply pending_eq_zero works
        intro node occurs
        exact undistinct some node ((listed node).mpr occurs)
  | @elimination later result some progress =>
      refine .inr ⟨later, result, rfl, progress, ?_⟩
      rw [todo, todo, if_neg some, if_neg some]
      exact progress.pending.symm

/-- The report of a fixed point, in a run that has ended. -/
def report (iterations : Nat) (run : OptimizerRun) : OptimizerRun :=
  { run with log := .fixedPoint iterations :: run.log }

theorem WorksOn.report (works : run.WorksOn plan) (iterations : Nat) :
    (run.report iterations).WorksOn plan :=
  ⟨works.represents, works.fresh⟩

/-- The export of a run never fails. -/
theorem perform_plan (works : run.WorksOn plan) :
    Step.perform OptimizerRun.plan run = (.ok plan, run) := by
  rcases works with ⟨⟨node, represents, rfl⟩, _⟩
  simp only [OptimizerRun.plan, Step.perform_bind, Step.perform_get, represents.toPlan_eq,
    Step.perform_ofExcept_ok]

/-- What several iterations do: as many eliminations as there are, or as many as
are allowed. Only in the first case is a fixed point reported. -/
theorem perform_iterations (works : run.WorksOn plan) (copies : Nat) (order : VisitOrder)
    (maxIterations remaining done : Nat) :
    ∃ later result, Progress (min (run.todo copies) remaining) run plan later result ∧
      Step.perform (iterations (.eliminating copies order maxIterations) remaining done) run =
        (.ok (), if run.todo copies < remaining then
          later.report (done + run.todo copies + 1) else later) := by
  induction remaining generalizing run plan done with
  | zero =>
      refine ⟨run, plan, ?_, by simp [iterations]⟩
      rw [Nat.min_zero]
      exact (Idle.refl run).progress works
  | succ remaining ih =>
      rw [iterations, Step.perform_bind]
      rcases perform_iterate works copies order maxIterations with
        ⟨later, outcome, progress, none⟩ | ⟨middle, between, outcome, progress, counted⟩
      · refine ⟨later, plan, ?_, ?_⟩
        · rwa [none, Nat.zero_min]
        · rw [outcome, none, if_pos (Nat.succ_pos remaining)]
          rfl
      · rcases ih progress.worksOn (done + 1) with ⟨later, result, further, performed⟩
        refine ⟨later, result, ?_, ?_⟩
        · have both := progress.trans further
          rw [Nat.add_comm] at both
          rwa [counted, Nat.succ_min_succ]
        · have total : done + 1 + middle.todo copies + 1 = done + (middle.todo copies + 1) + 1 := by
            omega
          rw [total] at performed
          rw [outcome, counted]
          simp only [if_true, performed, Nat.add_lt_add_iff_right]

end OptimizerRun

namespace Rule

/-- Number of places of a plan where the elimination binds. -/
def eliminationCount (plan : PlanNode) : Nat := (bindingsIn [.distinctElimination] plan).length

/-- The elimination binds at the nodes with a distinct call. -/
theorem eliminationCount_eq (plan : PlanNode) :
    eliminationCount plan = plan.breadthFirst.countP (·.operator.hasDistinctCall) := by
  rw [eliminationCount, bindingsIn, attempts]
  induction plan.breadthFirst with
  | nil => rfl
  | cons node rest ih =>
      rw [List.flatMap_cons, List.filterMap_append, List.length_append, ih, List.map_singleton,
        List.filterMap_cons, bind?_pattern, List.countP_cons]
      cases node.operator.hasDistinctCall with
      | true => exact Nat.add_comm _ _
      | false => exact Nat.zero_add _

/-- Any list of the nodes of a plan, each once, may be used to count. -/
theorem eliminationCount_of_listed {plan : PlanNode} (coherent : plan.Coherent)
    {nodes : List PlanNode} (nodup : (nodes.map (·.key)).Nodup)
    (listed : ∀ node, node ∈ nodes ↔ Occurs node plan) :
    eliminationCount plan = nodes.countP (·.operator.hasDistinctCall) := by
  rw [eliminationCount_eq]
  exact (breadthFirst_perm coherent nodup listed).countP_eq _

end Rule

namespace OptimizerRun

variable {run : OptimizerRun} {plan : PlanNode}

/-- An optimization starts on the plan with its nodes numbered anew. -/
theorem worksOn_start (valid : plan.Valid) (firstKey : Nat) :
    (start plan firstKey).WorksOn (relabel firstKey (plan.nodes.map (·.key)) plan) :=
  ⟨⟨_, represents_ofPlan valid, placeLabel_root valid.coherent⟩, fresh_ofPlan valid.coherent⟩

theorem pending_start (valid : plan.Valid) (firstKey : Nat) :
    (start plan firstKey).pending = Rule.eliminationCount plan := by
  have settled := settled_nodes valid.coherent
  rw [Rule.eliminationCount_of_listed valid.coherent settled.nodup_keys
    fun _ => mem_nodes valid.coherent]
  exact countP_ofPlan valid.coherent

/-- With a copy of the rule there is one elimination to make for every place. -/
theorem todo_start (valid : plan.Valid) (copies firstKey : Nat) :
    (start plan firstKey).todo (copies + 1) = Rule.eliminationCount plan := by
  rw [todo, if_neg (Nat.succ_ne_zero copies), pending_start valid]

/-- What is pending are the places where the rule binds in the current plan. -/
theorem WorksOn.pending_eq (works : run.WorksOn plan) :
    run.pending = Rule.eliminationCount plan := by
  rcases works with ⟨⟨node, represents, rfl⟩, _⟩
  rw [Rule.eliminationCount_of_listed represents.valid.coherent represents.nodup_keys
    fun _ => represents.mem_labels, List.countP_map]
  apply List.countP_congr
  intro vertex member
  rw [Function.comp_apply, represents.labels.operator_eq member]

end OptimizerRun

namespace Sample

/-- All pairs of customers. The two inputs are one node, with the id of the join. -/
def pairs : PlanNode :=
  .assemble 2 1 (.join .inner (.literal (.boolean true))) [customers, customers]

theorem occurs_pairs {node : PlanNode} :
    Occurs node pairs ↔ node ∈ [pairs, customers, orders] := by
  rw [occurs_iff, pairs]
  simp [assemble, occurs_customers]

theorem pairs_valid : pairs.Valid := by
  constructor
  · apply built_assemble (.join .inner (.literal _))
    intro input member
    obtain rfl : input = customers := by simpa using member
    exact customers_built
  · exact @coherent_of_listed pairs [pairs, customers, orders] (by decide) fun _ => occurs_pairs.mp

theorem eliminationCount_pairs : Rule.eliminationCount pairs = 1 :=
  @Rule.eliminationCount_of_listed pairs pairs_valid.coherent [pairs, customers, orders]
    (by decide) fun _ => occurs_pairs.symm

end Sample

namespace Optimizer

variable {plan : PlanNode}

/-- The whole optimization: how far it gets, what it returns, and its records. -/
theorem optimize_eq (valid : plan.Valid) (copies : Nat) (order : VisitOrder)
    (maxIterations firstKey : Nat) :
    let todo := (OptimizerRun.start plan firstKey).todo copies
    ∃ run result,
      OptimizerRun.Progress (min todo maxIterations) (.start plan firstKey)
        (relabel firstKey (plan.nodes.map (·.key)) plan) run result ∧
      let ended := if todo < maxIterations then run.report (todo + 1) else run
      (eliminating copies order maxIterations).optimize plan firstKey =
        ⟨.ok result, firstKey + ended.nextId, ended.log.reverse⟩ := by
  intro todo
  have works := OptimizerRun.worksOn_start valid firstKey
  obtain ⟨run, result, progress, performed⟩ :=
    OptimizerRun.perform_iterations works copies order maxIterations maxIterations 0
  refine ⟨run, result, progress, ?_⟩
  intro ended
  have endedWorks : ended.WorksOn result := by
    simp only [ended]
    split
    · exact progress.worksOn.report _
    · exact progress.worksOn
  rw [Nat.zero_add] at performed
  simp only [optimize, Step.perform_bind]
  rw [eliminating] at performed ⊢
  rw [performed]
  simp only [OptimizerRun.perform_plan endedWorks, ended, todo]

/-- The rule is fired once for every place where it binds, as long as the iterations
last. -/
theorem countP_isTrying_optimize (valid : plan.Valid) (copies : Nat) (order : VisitOrder)
    (maxIterations firstKey : Nat) :
    ((eliminating (copies + 1) order maxIterations).optimize plan firstKey).log.countP
        Event.isTrying = min (Rule.eliminationCount plan) maxIterations := by
  obtain ⟨run, _, progress, optimized⟩ :=
    optimize_eq valid (copies + 1) order maxIterations firstKey
  rw [OptimizerRun.todo_start valid] at progress optimized
  have tried := progress.tried
  simp only [OptimizerRun.start, List.countP_nil, Nat.zero_add] at tried
  rw [optimized, List.countP_reverse, ← tried]
  split <;> rfl

/-- An optimizer that has the elimination among its rules never fails. It fires
the rule once for every place where the rule binds, as long as its iterations
last, leaves the other places, and reports a fixed point in the iteration after
the last place. -/
theorem optimize_progress (valid : plan.Valid) (copies : Nat) (order : VisitOrder)
    (maxIterations firstKey : Nat) :
    let optimization := (eliminating (copies + 1) order maxIterations).optimize plan firstKey
    let count := Rule.eliminationCount plan
    ∃ result, optimization.plan = .ok result ∧
      optimization.log.countP Event.isTrying = min count maxIterations ∧
      optimization.log.countP Event.isApplied = min count maxIterations ∧
      Rule.eliminationCount result = count - min count maxIterations ∧
      optimization.log.filterMap Event.fixedPoint? =
        if count < maxIterations then [count + 1] else [] := by
  obtain ⟨run, result, progress, optimized⟩ :=
    optimize_eq valid (copies + 1) order maxIterations firstKey
  rw [OptimizerRun.todo_start valid] at progress optimized
  have applied := progress.applied
  have pending := progress.pending
  have fixedPoints := progress.fixedPoints
  rw [progress.worksOn.pending_eq, OptimizerRun.pending_start valid] at pending
  simp only [OptimizerRun.start, List.countP_nil, Nat.zero_add] at applied
  simp only [OptimizerRun.start, List.filterMap_nil] at fixedPoints
  refine ⟨result, ?_, countP_isTrying_optimize valid copies order maxIterations firstKey, ?_, ?_, ?_⟩
  · rw [optimized]
  · rw [optimized, List.countP_reverse, ← applied]
    split <;> rfl
  · omega
  · rw [optimized, List.filterMap_reverse]
    split
    · rw [OptimizerRun.report, List.filterMap_cons, fixedPoints]
      rfl
    · rw [fixedPoints]
      rfl

/-- `optimize_progress` for a plan that needs one of three iterations. -/
theorem optimize_progress_pairs :
    let optimization := (eliminating 2 .bottomUp 3).optimize Sample.pairs 7
    Rule.eliminationCount Sample.pairs = 1 ∧
    ∃ result, optimization.plan = .ok result ∧
      optimization.log.countP Event.isTrying = 1 ∧
      optimization.log.countP Event.isApplied = 1 ∧
      Rule.eliminationCount result = 0 ∧
      optimization.log.filterMap Event.fixedPoint? = [2] := by
  have progress := optimize_progress Sample.pairs_valid 1 .bottomUp 3 7
  rw [Sample.eliminationCount_pairs] at progress
  exact ⟨Sample.eliminationCount_pairs, progress⟩

end Optimizer

namespace Interpretation

variable {plan : PlanNode}

/-- New numbers do not change the rows of a plan. -/
theorem rows_relabel (interpretation : Interpretation) (built : plan.Built) (firstKey : Nat)
    (keys : List Nat) : interpretation.rows (relabel firstKey keys plan) = interpretation.rows plan := by
  have meaning : interpretation.meaning (relabel firstKey keys plan) = interpretation.meaning plan :=
    image_relabel fun node occurs _ _ _ same => meaning_assemble (built node occurs) same
  exact congrArg Prod.snd meaning

theorem FitsTables.relabel {interpretation : Interpretation}
    (tables : interpretation.FitsTables plan) (firstKey : Nat) (keys : List Nat) :
    interpretation.FitsTables (relabel firstKey keys plan) := by
  intro node table fields occurs scans
  rcases exists_of_occurs_relabel occurs with ⟨original, present, rfl⟩
  rw [relabel_eq] at scans
  exact tables original table fields present scans

/-- The optimized plan has the rows of the plan, in the same order, whatever is
above, below or between the aggregates. -/
theorem optimize_preserves_rows (interpretation : Interpretation)
    (respects : interpretation.RespectsWidths) (valid : plan.Valid)
    (tables : interpretation.FitsTables plan) (copies : Nat) (order : VisitOrder)
    (maxIterations firstKey : Nat) :
    ∃ result,
      ((Optimizer.eliminating copies order maxIterations).optimize plan firstKey).plan = .ok result ∧
      interpretation.rows result = interpretation.rows plan := by
  obtain ⟨run, result, progress, optimized⟩ :=
    Optimizer.optimize_eq valid copies order maxIterations firstKey
  have built := (OptimizerRun.worksOn_start valid firstKey).valid.built
  refine ⟨result, by rw [optimized], ?_⟩
  rw [progress.eliminations.rows respects built (tables.relabel _ _),
    interpretation.rows_relabel valid.built]

end Interpretation

namespace Sample

theorem counting_respects : counting.RespectsWidths where
  filter := fun _ _ uniform row member => uniform row member
  limit := fun _ _ uniform row member => uniform row (List.mem_of_mem_take member)
  outerJoin := by
    intro kind condition left right _ _ row member
    exact absurd member List.not_mem_nil

theorem counting_fits : counting.FitsTables pairs := by
  intro node table fields occurs scans row member
  have listed := occurs_pairs.mp occurs
  simp only [List.mem_cons, List.not_mem_nil, or_false] at listed
  rcases listed with rfl | rfl | rfl
  · exact Operator.noConfusion scans
  · exact Operator.noConfusion scans
  · rcases Operator.tableScan.inj scans with ⟨rfl, rfl⟩
    exact length_of_mem_table member

/-- `optimize_preserves_rows` for a plan that reads an aggregate twice. -/
theorem optimize_preserves_rows_pairs :
    ∃ result, ((Optimizer.eliminating 2 .topDown 3).optimize pairs 7).plan = .ok result ∧
      counting.rows result = counting.rows pairs :=
  counting.optimize_preserves_rows counting_respects pairs_valid counting_fits 2 .topDown 3 7

end Sample

end QueryPlan
