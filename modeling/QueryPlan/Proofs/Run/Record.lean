import QueryPlan.Proofs.Run.Trace

/-!
# Firings on record

An optimization passes through the states in which its rules are fired: what a
firing leaves is a state from which the iterations that are left give the result
of the whole optimization. Each firing is on record, after all that was recorded
before it, and there is no record of a firing but of these.
-/

namespace QueryPlan

open DistinctElimination PlanNode

namespace OptimizerRun

variable {start run before after : OptimizerRun} {plan : PlanNode} {copies : Nat}
  {order : VisitOrder} {maxIterations : Nat}

theorem Idle.log_suffix (idle : Idle before after) : before.log <:+ after.log := by
  obtain ⟨events, _, rfl⟩ := idle
  exact List.suffix_append events before.log

/-- Nothing is taken from a record. -/
theorem Transitions.log_suffix (transitions : Transitions before after) :
    before.log <:+ after.log := by
  induction transitions with
  | refl => exact List.suffix_refl before.log
  | tail _ step ih =>
      cases step with
      | idle idle => exact ih.trans idle.log_suffix
      | elimination => exact ih.trans ⟨[_, _, _], rfl⟩

/-- A firing on a record was on it before, if none is new. -/
theorem suffix_of_isTrying {early late log : List Event} {event : Event} (grown : early <:+ late)
    (none : late.countP Event.isTrying = early.countP Event.isTrying)
    (isTrying : event.isTrying = true) (recorded : event :: log <:+ late) :
    event :: log <:+ early := by
  rcases List.suffix_or_suffix_of_suffix recorded grown with within | new
  · exact within
  · rcases List.suffix_cons_iff.mp new with rfl | earlier
    · exact List.suffix_refl _
    · -- The record would have one more firing.
      have atLeast : (event :: log).countP Event.isTrying ≤ _ := recorded.sublist.countP_le
      have atMost : early.countP Event.isTrying ≤ _ := earlier.sublist.countP_le
      rw [List.countP_cons_of_pos isTrying] at atLeast
      omega

/-- The iterations end with one that changes nothing, or there are no more of them. -/
theorem Begins.exists_last {done : Nat} (works : run.WorksOn plan)
    (begins : Begins (.eliminating copies order maxIterations) start done run) (remaining : Nat) :
    ∃ finished last ended,
      finished ≤ done + remaining ∧
      Begins (.eliminating copies order maxIterations) start finished last ∧
      Step.perform (iterations (.eliminating copies order maxIterations) remaining done) run =
        (.ok (), ended) ∧
      last.log <:+ ended.log ∧
      ended.log.countP Event.isTrying = last.log.countP Event.isTrying := by
  induction remaining generalizing done run plan with
  | zero => exact ⟨done, run, run, Nat.le_refl done, begins, rfl, List.suffix_refl _, rfl⟩
  | succ remaining ih =>
      rw [iterations]
      rcases perform_iterate works copies order maxIterations with
        ⟨later, unchanged, progress, _⟩ | ⟨later, result, changed, progress, _⟩
      · refine ⟨done, run, later.report (done + 1), Nat.le_add_right _ _, begins, ?_,
          progress.transitions.log_suffix.trans (List.suffix_cons _ _), progress.tried⟩
        rw [Step.perform_bind_of_ok unchanged]
        rfl
      · obtain ⟨finished, last, ended, bound, lastBegins, performed, grown, none⟩ :=
          ih progress.worksOn (.next begins changed)
        refine ⟨finished, last, ended, by omega, lastBegins, ?_, grown, none⟩
        rw [Step.perform_bind_of_ok changed]
        exact performed

end OptimizerRun

namespace Optimizer

variable {plan : PlanNode} {copies : Nat} {order : VisitOrder} {maxIterations firstKey : Nat}

/-- What an optimization gives that goes on from a state in which some iterations
are done. -/
def resume (optimizer : Optimizer) (firstKey done : Nat) (run : OptimizerRun) : Optimization :=
  let steps : OptimizerStep PlanNode := do
    OptimizerRun.iterations optimizer (optimizer.maxIterations - done) done
    OptimizerRun.plan
  let (result, later) := Step.perform steps run
  ⟨result, firstKey + later.nextId, later.log.reverse⟩

/-- Whether an optimization passes through the firing of a rule at a node, from the
state `before` to the state `after`: the optimization goes on from there, and on
its record the firing follows what was recorded before. -/
structure PassesThrough (optimizer : Optimizer) (plan : PlanNode) (firstKey : Nat) (rule : Rule)
    (node : PlanNode) (before after : OptimizerRun) : Prop where
  fired : Step.perform (OptimizerRun.attempt node rule) before = (.ok true, after)
  resumed : ∃ done < optimizer.maxIterations,
    optimizer.optimize plan firstKey = optimizer.resume firstKey (done + 1) after
  recorded : before.log.reverse ++ [.trying rule.name node.operator] <+:
    (optimizer.optimize plan firstKey).log

/-- The optimization goes on wherever an iteration begins. -/
theorem optimize_eq_resume {optimizer : Optimizer} {done : Nat} {run : OptimizerRun}
    (begins : OptimizerRun.Begins optimizer (.start plan firstKey) done run)
    (within : done ≤ optimizer.maxIterations) :
    optimizer.optimize plan firstKey = optimizer.resume firstKey done run := by
  have performed := begins.perform_iterations (optimizer.maxIterations - done)
  rw [Nat.add_sub_cancel' within] at performed
  simp only [optimize, resume, Step.perform_bind, performed]

/-- The export at the end leaves no record. -/
theorem log_resume {optimizer : Optimizer} {done : Nat} {run ended : OptimizerRun}
    (performed : Step.perform
      (OptimizerRun.iterations optimizer (optimizer.maxIterations - done) done) run =
        (.ok (), ended)) :
    (optimizer.resume firstKey done run).log = ended.log.reverse := by
  simp only [resume, Step.perform_bind, performed, OptimizerRun.plan, Step.perform_get]
  cases ended.graph.toPlan ended.firstKey <;> rfl

/-- What is on record stays there. -/
theorem log_prefix_resume {run : OptimizerRun} {current : PlanNode} (works : run.WorksOn current)
    (done : Nat) :
    run.log.reverse <+: ((eliminating copies order maxIterations).resume firstKey done run).log := by
  obtain ⟨later, result, progress, performed⟩ :=
    OptimizerRun.perform_iterations works copies order maxIterations (maxIterations - done) done
  rw [log_resume performed, List.reverse_prefix]
  split
  · exact progress.transitions.log_suffix.trans (List.suffix_cons _ _)
  · exact progress.transitions.log_suffix

/-- What an elimination does to a run, and its records. -/
theorem Eliminates.perform_attempt {run before : OptimizerRun} {current node : PlanNode}
    (eliminates : Eliminates order run current node before) :
    ∃ aggregate result after,
      Step.perform (OptimizerRun.attempt node .distinctElimination) before = (.ok true, after) ∧
      after.log = .applied name result :: eventOf aggregate :: .trying name node.operator ::
        before.log := by
  obtain ⟨⟨label, represents, rfl⟩, fresh⟩ := eliminates.worksOn
  obtain ⟨vertex, member, rfl⟩ := represents.occurs_iff.mp eliminates.occurs
  obtain ⟨aggregate, input, eliminable⟩ :=
    (represents.labels.checked member).eliminable eliminates.distinct
  exact ⟨aggregate, _, _, OptimizerRun.perform_attempt_eq
    (OptimizerRun.replaceable_templateOf represents member eliminable fresh) eliminable, rfl⟩

/-- A rule that changes the plan is the elimination, and leaves its records. -/
theorem eliminates_of_applied (valid : plan.Valid) {done : Nat} {run before after : OptimizerRun}
    {rule : Rule} {node : PlanNode}
    (begins : OptimizerRun.Begins (eliminating copies order maxIterations) (.start plan firstKey)
      done run)
    (tries : run.Tries (eliminating copies order maxIterations) rule node before)
    (applied : Step.perform (OptimizerRun.attempt node rule) before = (.ok true, after)) :
    rule = .distinctElimination ∧ ∃ current aggregate result,
      Eliminates order run current node before ∧
      after.log = .applied name result :: eventOf aggregate :: .trying name node.operator ::
        before.log := by
  obtain ⟨current, works, _⟩ := worksOn_of_begins valid begins
  obtain ⟨rfl, eliminates⟩ :=
    eliminates_of_tries works tries (OptimizerRun.binds_of_attempt applied)
  obtain ⟨aggregate, result, _, performed, log⟩ := eliminates.perform_attempt
  obtain rfl := (Prod.mk.inj (performed.symm.trans applied)).2
  exact ⟨rfl, current, aggregate, result, eliminates, log⟩

/-- The optimization passes through each firing. -/
theorem Fires.passesThrough (valid : plan.Valid) {rule : Rule} {node : PlanNode}
    {before after : OptimizerRun}
    (fires : (eliminating copies order maxIterations).Fires plan firstKey rule node before)
    (applied : Step.perform (OptimizerRun.attempt node rule) before = (.ok true, after)) :
    (eliminating copies order maxIterations).PassesThrough plan firstKey rule node before after := by
  obtain ⟨done, run, within, begins, tries, _⟩ := fires
  obtain ⟨rfl, _, aggregate, result, _, log⟩ := eliminates_of_applied valid begins tries applied
  have next := OptimizerRun.Begins.next begins (tries.perform_iterate applied)
  have resumed := optimize_eq_resume next within
  obtain ⟨current, works, _⟩ := worksOn_of_begins valid next
  refine ⟨applied, ⟨done, within, resumed⟩, ?_⟩
  rw [resumed]
  refine List.IsPrefix.trans ?_ (log_prefix_resume works (done + 1))
  rw [log, ← List.reverse_cons, List.reverse_prefix]
  exact ⟨[_, _], rfl⟩

/-- A firing that is on the record when an iteration begins is one of the run. -/
theorem exists_fires_of_recorded (valid : plan.Valid) {done : Nat} {run : OptimizerRun}
    (begins : OptimizerRun.Begins (eliminating copies order maxIterations) (.start plan firstKey)
      done run) (within : done ≤ maxIterations) {rule : String} {operator : Operator}
    {log : List Event} (recorded : .trying rule operator :: log <:+ run.log) :
    ∃ fired node before,
      (eliminating copies order maxIterations).Fires plan firstKey fired node before ∧
      fired.name = rule ∧ node.operator = operator ∧ before.log = log := by
  induction begins with
  | first => simp [OptimizerRun.start] at recorded
  | @next done run later begins changed ih =>
      obtain ⟨fired, node, before, tries, applied⟩ := OptimizerRun.exists_tries changed
      obtain ⟨rfl, _, aggregate, result, eliminates, after⟩ :=
        eliminates_of_applied valid begins tries applied
      -- The last three records are those of the elimination, and the firing is the first of them.
      have silent := (OptimizerRun.eventOf_silent aggregate).1
      rw [after] at recorded
      rcases List.suffix_cons_iff.mp recorded with equal | recorded
      · simp at equal
      rcases List.suffix_cons_iff.mp recorded with equal | recorded
      · rw [← (List.cons.inj equal).1] at silent
        exact Bool.noConfusion silent
      rcases List.suffix_cons_iff.mp recorded with equal | recorded
      · obtain ⟨same, rfl⟩ := List.cons.inj equal
        obtain ⟨rfl, rfl⟩ := Event.trying.inj same
        exact ⟨_, node, before, ⟨done, run, within, begins, tries,
          OptimizerRun.binds_of_attempt applied⟩, rfl, rfl, rfl⟩
      · exact ih (Nat.le_of_lt within) (OptimizerRun.suffix_of_isTrying eliminates.idle.log_suffix
          (eliminates.idle.countP_log fun _ _ => rfl) rfl recorded)

/-- Every firing on the record of an optimization is one that it passes through. -/
theorem exists_fires_of_log (valid : plan.Valid) {early : List Event} {rule : String}
    {operator : Operator}
    (recorded : early ++ [.trying rule operator] <+:
      ((eliminating copies order maxIterations).optimize plan firstKey).log) :
    ∃ fired node before,
      (eliminating copies order maxIterations).Fires plan firstKey fired node before ∧
      fired.name = rule ∧ node.operator = operator ∧ before.log.reverse = early := by
  obtain ⟨finished, last, ended, bound, begins, performed, grown, none⟩ :=
    OptimizerRun.Begins.exists_last (OptimizerRun.worksOn_start valid firstKey)
      (.first : OptimizerRun.Begins (eliminating copies order maxIterations) _ 0 _) maxIterations
  rw [Nat.zero_add] at bound
  rw [optimize_eq_resume .first (Nat.zero_le _), log_resume performed,
    ← List.reverse_reverse (early ++ _), List.reverse_prefix, List.reverse_append,
    List.reverse_singleton, List.singleton_append] at recorded
  obtain ⟨fired, node, before, fires, named, operators, same⟩ := exists_fires_of_recorded valid
    begins bound (OptimizerRun.suffix_of_isTrying grown none rfl recorded)
  exact ⟨fired, node, before, fires, named, operators, by rw [same, List.reverse_reverse]⟩

end Optimizer

end QueryPlan
