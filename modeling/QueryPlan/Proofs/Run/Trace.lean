import QueryPlan.Proofs.Run.Optimization

/-!
# Firings of a run

An optimizer goes in iterations, and an iteration tries the rules at one node
after the other until the plan changes. `Optimizer.Fires` singles out the moments
of a run at which a rule is tried where it binds. For an optimizer that has
copies of the elimination, such a moment is one of an elimination: the node is
the first visited one with a distinct call, and nothing has happened in the
iteration before but that rules were skipped.
-/

namespace QueryPlan

open DistinctElimination PlanNode

namespace Step

variable {State α : Type} {test : α → Step State Bool} {members : List α} {state later : State}

/-- Whether a search gets to a member, in the state `arrived`, as no member before
it passes the test. -/
def Arrives (test : α → Step State Bool) (members : List α) (state : State) (member : α)
    (arrived : State) : Prop :=
  ∃ before after, members = before ++ member :: after ∧
    perform (before.anyM test) state = (.ok false, arrived)

/-- A search that finds something gets to a member that passes. -/
theorem exists_arrives (found : perform (members.anyM test) state = (.ok true, later)) :
    ∃ member arrived, Arrives test members state member arrived ∧
      perform (test member) arrived = (.ok true, later) := by
  induction members generalizing state with
  | nil => simp at found
  | cons first rest ih =>
      rw [perform_anyM_cons] at found
      split at found
      · rename_i passed outcome
        rw [← found]
        exact ⟨first, state, ⟨[], rest, rfl, rfl⟩, outcome⟩
      · rename_i between outcome
        obtain ⟨member, arrived, ⟨before, after, rfl, failed⟩, passes⟩ := ih found
        refine ⟨member, arrived, ⟨first :: before, after, rfl, ?_⟩, passes⟩
        rw [perform_anyM_cons, outcome]
        exact failed
      · simp at found

/-- A search goes on behind members that do not pass. -/
theorem perform_anyM_append {before after : List α} {between : State}
    (failed : perform (before.anyM test) state = (.ok false, between)) :
    perform ((before ++ after).anyM test) state = perform (after.anyM test) between := by
  induction before generalizing state with
  | nil =>
      obtain rfl : state = between := (Prod.mk.inj failed).2
      rfl
  | cons first rest ih =>
      rw [perform_anyM_cons] at failed
      rw [List.cons_append, perform_anyM_cons]
      split at failed
      · simp at failed
      · exact ih failed
      · simp at failed

/-- A search that gets to a member that passes finds it. -/
theorem Arrives.found {member : α} {arrived : State}
    (arrives : Arrives test members state member arrived)
    (passes : perform (test member) arrived = (.ok true, later)) :
    perform (members.anyM test) state = (.ok true, later) := by
  obtain ⟨before, after, rfl, failed⟩ := arrives
  rw [perform_anyM_append failed, perform_anyM_cons, passes]

end Step

namespace OptimizerRun

variable {optimizer : Optimizer} {start run later : OptimizerRun}

/-- The states in which the iterations of an optimization begin, with the number
of iterations that are done. -/
inductive Begins (optimizer : Optimizer) (start : OptimizerRun) : Nat → OptimizerRun → Prop
  | first : Begins optimizer start 0 start
  | next {done : Nat} {run later : OptimizerRun} :
      Begins optimizer start done run → Step.perform (iterate optimizer) run = (.ok true, later) →
      Begins optimizer start (done + 1) later

/-- Where an iteration begins, the optimization goes on with what is left of it. -/
theorem Begins.perform_iterations {done : Nat} (begins : Begins optimizer start done run)
    (remaining : Nat) :
    Step.perform (iterations optimizer (done + remaining) 0) start =
      Step.perform (iterations optimizer remaining done) run := by
  induction begins generalizing remaining with
  | first => rw [Nat.zero_add]
  | @next done run later _ changed ih =>
      rw [Nat.add_right_comm, Nat.add_assoc, ih, iterations, Step.perform_bind, changed]
      simp only [if_true]

/-- Whether an iteration that begins in `run` tries a rule at a node, in the state
`before`. -/
def Tries (optimizer : Optimizer) (run : OptimizerRun) (rule : Rule) (node : PlanNode)
    (before : OptimizerRun) : Prop :=
  ∃ nodes visited reached, Step.perform (visits optimizer.order) run = (.ok nodes, visited) ∧
    Step.Arrives (fun node => optimizer.rules.anyM (attempt node)) nodes visited node reached ∧
    Step.Arrives (attempt node) optimizer.rules reached rule before

/-- An iteration that changes the plan does so by trying a rule. -/
theorem exists_tries (changed : Step.perform (iterate optimizer) run = (.ok true, later)) :
    ∃ rule node before, Tries optimizer run rule node before ∧
      Step.perform (attempt node rule) before = (.ok true, later) := by
  rw [iterate, Step.perform_bind] at changed
  split at changed
  · rename_i nodes visited outcome
    obtain ⟨node, reached, atNode, passes⟩ := Step.exists_arrives changed
    obtain ⟨rule, before, atRule, applied⟩ := Step.exists_arrives passes
    exact ⟨rule, node, before, ⟨nodes, visited, reached, outcome, atNode, atRule⟩, applied⟩
  · simp at changed

/-- An iteration ends with the first rule that changes the plan. -/
theorem Tries.perform_iterate {rule : Rule} {node : PlanNode} {before : OptimizerRun}
    (tries : Tries optimizer run rule node before)
    (applied : Step.perform (attempt node rule) before = (.ok true, later)) :
    Step.perform (iterate optimizer) run = (.ok true, later) := by
  obtain ⟨nodes, visited, reached, outcome, atNode, atRule⟩ := tries
  rw [iterate, Step.perform_bind_of_ok outcome]
  exact atNode.found (atRule.found applied)

/-- A rule changes the plan only where it binds. -/
theorem binds_of_attempt {node : PlanNode} {rule : Rule} {before : OptimizerRun}
    (applied : Step.perform (attempt node rule) before = (.ok true, later)) :
    (Binding.bind? rule.pattern node).isSome := by
  cases bound : Binding.bind? rule.pattern node with
  | some binding => rfl
  | none =>
      have skipped : Step.perform (attempt node rule) before =
          (.ok false, { before with log := .skipped rule.name node.operator :: before.log }) := by
        rw [attempt, bound]
        rfl
      rw [skipped] at applied
      simp at applied

/-- A search that finds nothing leaves the plan alone. -/
theorem Searched.of_false {copies : Nat} {nodes : List PlanNode} {plan : PlanNode}
    (searched : Searched copies nodes run plan (.ok false, later)) :
    Idle run later ∧ (copies ≠ 0 → ∀ node ∈ nodes, node.operator.hasDistinctCall = false) := by
  cases searched with
  | nothing idle undistinct => exact ⟨idle, undistinct⟩

/-- A run that was idle has the same nodes to visit. -/
theorem Idle.perform_visits (idle : Idle run later) {plan : PlanNode} (works : run.WorksOn plan)
    {order : VisitOrder} {nodes : List PlanNode}
    (visited : Step.perform (visits order) run = (.ok nodes, run)) :
    Step.perform (visits order) later = (.ok nodes, later) := by
  rcases works with ⟨⟨node, represents, rfl⟩, _⟩
  rcases idle with ⟨events, _, rfl⟩
  rw [perform_visits_eq represents] at visited
  rw [← (Prod.mk.inj visited).1]
  exact @perform_visits_eq { run with log := events ++ run.log } node represents order

end OptimizerRun

namespace Optimizer

variable {plan : PlanNode} {copies : Nat} {order : VisitOrder} {maxIterations firstKey : Nat}

/-- Whether the optimization of a plan fires a rule at a node, in the state
`before`. -/
def Fires (optimizer : Optimizer) (plan : PlanNode) (firstKey : Nat) (rule : Rule)
    (node : PlanNode) (before : OptimizerRun) : Prop :=
  ∃ done run, done < optimizer.maxIterations ∧
    OptimizerRun.Begins optimizer (.start plan firstKey) done run ∧
    run.Tries optimizer rule node before ∧ (Binding.bind? rule.pattern node).isSome

/-- Whether an iteration that begins in `run`, with `current` as its plan, gets to
an elimination of the calls of `node`, in the state `before`. -/
structure Eliminates (order : VisitOrder) (run : OptimizerRun) (current node : PlanNode)
    (before : OptimizerRun) : Prop where
  worksOn : before.WorksOn current
  idle : OptimizerRun.Idle run before
  distinct : node.operator.hasDistinctCall = true
  visits : ∃ earlier later,
    Step.perform (OptimizerRun.visits order) before = (.ok (earlier ++ node :: later), before) ∧
      ∀ other ∈ earlier, other.operator.hasDistinctCall = false

theorem Eliminates.occurs {run before : OptimizerRun} {current node : PlanNode}
    (eliminates : Eliminates order run current node before) : Occurs node current := by
  obtain ⟨earlier, later, visited, _⟩ := eliminates.visits
  obtain ⟨nodes, listed, mem⟩ := OptimizerRun.perform_visits eliminates.worksOn order
  obtain rfl : earlier ++ node :: later = nodes := by simpa [visited] using listed
  exact (mem node).mp (by simp)

/-- A rule that is tried where it binds is the elimination, and is tried at the first
visited node with a distinct call. -/
theorem eliminates_of_tries {run before : OptimizerRun} {current node : PlanNode} {rule : Rule}
    (works : run.WorksOn current)
    (tries : run.Tries (eliminating copies order maxIterations) rule node before)
    (binds : (Binding.bind? rule.pattern node).isSome) :
    rule = .distinctElimination ∧ Eliminates order run current node before := by
  obtain ⟨nodes, visited, reached, listed, atNode, atRule⟩ := tries
  obtain ⟨earlier, later, rfl, untilNode⟩ := atNode
  obtain ⟨earlierRules, laterRules, rules, untilRule⟩ := atRule
  -- All rules are copies of one, so those that were tried before at the node are copies as well.
  have copy : ∀ other ∈ earlierRules ++ rule :: laterRules, other = .distinctElimination := by
    intro other member
    rw [← rules] at member
    exact List.eq_of_mem_replicate member
  have earlierCopies : earlierRules = List.replicate earlierRules.length .distinctElimination :=
    List.eq_replicate_of_mem fun other member => copy other (List.mem_append_left _ member)
  obtain rfl : rule = .distinctElimination := copy rule (by simp)
  have some : copies ≠ 0 := by
    rintro rfl
    simp [eliminating] at rules
  obtain ⟨occurring, performed, mem⟩ := OptimizerRun.perform_visits works order
  obtain ⟨rfl, rfl⟩ : occurring = earlier ++ node :: later ∧ run = visited := by
    simpa using performed.symm.trans listed
  have passed := OptimizerRun.searched_nodes works copies
    fun other member => (mem other).mp (List.mem_append_left (node :: later) member)
  rw [eliminating] at untilNode
  rw [untilNode] at passed
  obtain ⟨idle, undistinct⟩ := passed.of_false
  have tried := OptimizerRun.searched_node (idle.progress works).worksOn earlierRules.length
    ((mem node).mp (by simp))
  rw [← earlierCopies, untilRule] at tried
  have further := idle.trans tried.of_false.1
  have distinct : node.operator.hasDistinctCall = true := by
    rw [bind?_pattern] at binds
    cases distinct : node.operator.hasDistinctCall with
    | true => rfl
    | false => simp [distinct] at binds
  exact ⟨rfl, (further.progress works).worksOn, further, distinct, earlier, later,
    further.perform_visits works performed, undistinct some⟩

/-- The run works on a plan whenever an iteration begins. -/
theorem worksOn_of_begins (valid : plan.Valid) {done : Nat} {run : OptimizerRun}
    (begins : OptimizerRun.Begins (eliminating copies order maxIterations)
      (.start plan firstKey) done run) :
    ∃ current, run.WorksOn current ∧ OptimizerRun.Transitions (.start plan firstKey) run := by
  induction begins with
  | first => exact ⟨_, OptimizerRun.worksOn_start valid firstKey, .refl⟩
  | next _ changed ih =>
      obtain ⟨current, works, transitions⟩ := ih
      rcases OptimizerRun.perform_iterate works copies order maxIterations with
        ⟨later, unchanged, _⟩ | ⟨later, result, eliminated, progress, _⟩
      · rw [unchanged] at changed
        simp at changed
      · rw [eliminated] at changed
        obtain rfl := (Prod.mk.inj changed).2
        exact ⟨result, progress.worksOn, transitions.trans progress.transitions⟩

/-- A firing is an elimination. -/
theorem Fires.eliminates (valid : plan.Valid) {rule : Rule} {node : PlanNode}
    {before : OptimizerRun}
    (fires : (eliminating copies order maxIterations).Fires plan firstKey rule node before) :
    rule = .distinctElimination ∧ ∃ run current,
      OptimizerRun.Transitions (.start plan firstKey) run ∧
      Eliminates order run current node before := by
  obtain ⟨done, run, _, begins, tries, binds⟩ := fires
  obtain ⟨current, works, transitions⟩ := worksOn_of_begins valid begins
  obtain ⟨rfl, eliminates⟩ := eliminates_of_tries works tries binds
  exact ⟨rfl, run, current, transitions, eliminates⟩

/-- When the elimination binds somewhere in a plan, the first iteration fires it. -/
theorem exists_fires (valid : plan.Valid) (some : Rule.eliminationCount plan ≠ 0) (copies : Nat)
    (order : VisitOrder) (maxIterations firstKey : Nat) :
    ∃ node before, (eliminating (copies + 1) order (maxIterations + 1)).Fires plan firstKey
        .distinctElimination node before ∧
      Eliminates order (.start plan firstKey) (relabel firstKey (plan.nodes.map (·.key)) plan) node
        before := by
  have works := OptimizerRun.worksOn_start valid firstKey
  rcases OptimizerRun.perform_iterate works (copies + 1) order (maxIterations + 1) with
    ⟨_, _, _, none⟩ | ⟨later, _, eliminated, _⟩
  · rw [OptimizerRun.todo_start valid] at none
    exact absurd none some
  · obtain ⟨rule, node, before, tries, applied⟩ := OptimizerRun.exists_tries eliminated
    have binds := OptimizerRun.binds_of_attempt applied
    obtain ⟨rfl, eliminates⟩ := eliminates_of_tries works tries binds
    exact ⟨node, before, ⟨0, _, Nat.succ_pos maxIterations, .first, tries, binds⟩, eliminates⟩

end Optimizer

end QueryPlan
