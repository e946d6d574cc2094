import QueryPlan.Proofs.Elimination.Action
import QueryPlan.Rule.Basic

/-!
# Firing the elimination

The rule binds exactly at the aggregates with a distinct call. Fired on one that
was built, it succeeds: it writes one record, builds the placed template of the
node with one id and one key for each new node, and proposes it.
-/

namespace QueryPlan

/-- An aggregate node with a distinct call, taken apart. -/
structure PlanNode.Eliminable (node : PlanNode) (aggregate : Aggregate) (input : PlanNode) :
    Prop where
  operator : node.operator = .aggregate aggregate
  inputs : node.inputs = [input]
  distinct : aggregate.hasDistinctCall = true
  fits : aggregate.Fits input.schema.width
  types : node.types = aggregate.outputTypes input.types

namespace PlanNode

/-- A built aggregate stands on one input that it fits. -/
theorem Checked.aggregate_input {node : PlanNode} {aggregate : Aggregate} (checked : node.Checked)
    (operator : node.operator = .aggregate aggregate) :
    ∃ input, node.inputs = [input] ∧ aggregate.Fits input.schema.width ∧
      node.types = aggregate.outputTypes input.types := by
  have typed := checked.typed
  rw [operator] at typed
  generalize inputTypes : node.inputs.map PlanNode.types = types at typed
  generalize outputTypes : node.types = output at typed
  cases typed with
  | @aggregate _ only fits =>
      match inputs : node.inputs, inputTypes with
      | [input], inputTypes =>
          obtain rfl : input.types = only := by simpa using inputTypes
          rw [PlanNode.types, Schema.length_types] at fits
          exact ⟨input, rfl, fits, rfl⟩

/-- A built node at which the rule binds is an aggregate over one input that it
fits. -/
theorem Checked.eliminable {node : PlanNode} (checked : node.Checked)
    (distinct : node.operator.hasDistinctCall = true) :
    ∃ aggregate input, node.Eliminable aggregate input := by
  cases operator : node.operator with
  | aggregate grouping =>
      rw [operator] at distinct
      obtain ⟨input, inputs, fits, types⟩ := checked.aggregate_input operator
      exact ⟨grouping, input, operator, inputs, distinct, fits, types⟩
  | tableScan _ _ | projection _ _ | join _ _ | filter _ | limit _ =>
      rw [operator] at distinct
      exact Bool.noConfusion distinct

end PlanNode

namespace DistinctElimination

/-- The template that takes the place of a node. -/
def templateOf (node : PlanNode) : Template :=
  match node.operator, node.inputs with
  | .aggregate aggregate, [input] => replacement aggregate input node.schema.names
  | _, _ => .existing node

/-- The record of an elimination. -/
def eventOf (aggregate : Aggregate) : Event :=
  match aggregate.soleArguments? with
  | some args => .eliminatingSingleList aggregate args
  | none => .eliminatingByJoins aggregate aggregate.argumentLists.length

variable {node input : PlanNode} {aggregate : Aggregate}

theorem templateOf_eq (eliminable : node.Eliminable aggregate input) :
    templateOf node = replacement aggregate input node.schema.names := by
  simp only [templateOf, eliminable.operator, eliminable.inputs]

/-- The replacement has the column types of the node. -/
theorem typed_templateOf (eliminable : node.Eliminable aggregate input) :
    (templateOf node).Typed node.types := by
  rw [templateOf_eq eliminable, eliminable.types]
  exact typed_replacement eliminable.fits (length_names eliminable.fits eliminable.types)

theorem bind?_pattern (node : PlanNode) :
    Binding.bind? Rule.distinctElimination.pattern node =
      if node.operator.hasDistinctCall then some ⟨node, []⟩ else none := by
  rw [Binding.bind?, Rule.distinctElimination]
  simp only [Pattern.match?]
  by_cases distinct : node.operator.hasDistinctCall = true
  · rw [if_pos distinct, if_pos distinct]
    rfl
  · rw [if_neg distinct, if_neg distinct]
    rfl

theorem bind?_of_undistinct {node : PlanNode}
    (undistinct : node.operator.hasDistinctCall = false) :
    Binding.bind? Rule.distinctElimination.pattern node = none := by
  rw [bind?_pattern, undistinct]
  rfl

/-- A proposal of the right types, made first, is kept. -/
theorem perform_propose {firing : Firing} {proposed : PlanNode}
    (types : firing.binding.root.types = proposed.types) (first : firing.proposal = none) :
    Step.perform (Firing.propose proposed) firing =
      (.ok (), { firing with proposal := some proposed }) := by
  have same : firing.binding.root.schema.sameTypes proposed.schema = true :=
    Schema.sameTypes_iff.mpr types
  simp only [Firing.propose, Step.perform_bind, Step.perform_get, same, first]
  rfl

/-- A further proposal of the right types is only recorded. -/
theorem perform_propose_further {firing : Firing} {first proposed : PlanNode}
    (types : firing.binding.root.types = proposed.types) (taken : firing.proposal = some first) :
    Step.perform (Firing.propose proposed) firing =
      (.ok (), { firing with
        log := firing.log ++ [.furtherReplacement firing.binding.root.operator] }) := by
  have same : firing.binding.root.schema.sameTypes proposed.schema = true :=
    Schema.sameTypes_iff.mpr types
  have full : firing.proposal.isSome = true := by rw [taken, Option.isSome_some]
  simp only [Firing.propose, Step.perform_bind, Step.perform_get, same, full]
  rfl

/-- The first operand of a firing is the bound root. -/
theorem perform_operand_root (firing : Firing) :
    Step.perform (Firing.operand 0) firing = (.ok firing.binding.root, firing) := by
  rw [Firing.operand, Step.perform_bind_of_ok (Step.perform_get firing)]
  exact Step.perform_index_of_some rfl firing

/-- Both ways of eliminating distinct calls in one: what is recorded, and what is
built. -/
theorem perform_eliminate (eliminable : node.Eliminable aggregate input) (firing : Firing) :
    Step.perform (eliminate node aggregate input aggregate.argumentLists) firing =
      (.ok ((templateOf node).place firing.nextKey firing.nextId),
        Firing.advance { firing with log := firing.log ++ [eventOf aggregate] }
          (templateOf node).size) := by
  have fits := eliminable.fits
  rw [templateOf_eq eliminable, eventOf, replacement]
  cases lists : aggregate.argumentLists with
  | nil =>
      rw [Aggregate.argumentLists_eq_nil_iff, eliminable.distinct] at lists
      exact Bool.noConfusion lists
  | cons args rest =>
      rw [eliminate]
      split
      · rename_i single
        have sole : aggregate.soleArguments? = some args := by
          rw [Aggregate.soleArguments?_of_cons lists, if_pos single]
        rw [sole, Step.perform_bind_of_ok (Firing.perform_record _ firing)]
        exact perform_overSelection fits sole _
      · rename_i several
        have sole : aggregate.soleArguments? = none := by
          rw [Aggregate.soleArguments?_of_cons lists, if_neg several]
        rw [sole, Step.perform_bind_of_ok (Firing.perform_record _ firing)]
        exact perform_joinSides fits eliminable.types _

/-- The action on an aggregate with a distinct call proposes what it has built. -/
theorem action_eq (eliminable : node.Eliminable aggregate input) {firing : Firing}
    (root : firing.binding.root = node) :
    Step.perform action firing =
      Step.perform (Firing.propose ((templateOf node).place firing.nextKey firing.nextId))
        (Firing.advance { firing with log := firing.log ++ [eventOf aggregate] }
          (templateOf node).size) := by
  have first : node.inputs[0]? = some input := by rw [eliminable.inputs]; rfl
  rw [action, Step.perform_bind_of_ok (perform_operand_root firing)]
  simp only [root, eliminable.operator]
  rw [Step.perform_bind_of_ok (Step.perform_index_of_some first firing),
    Step.perform_bind_of_ok (perform_eliminate eliminable firing)]

theorem bind?_of_eliminable (eliminable : node.Eliminable aggregate input) :
    Binding.bind? Rule.distinctElimination.pattern node = some ⟨node, []⟩ := by
  have distinct : node.operator.hasDistinctCall = true := by
    rw [eliminable.operator]
    exact eliminable.distinct
  rw [bind?_pattern, if_pos distinct]

/-- What firing the rule gives. -/
theorem fire_eq (eliminable : node.Eliminable aggregate input) (nextId nextKey : Nat) :
    Rule.distinctElimination.fire ⟨node, []⟩ nextId nextKey =
      (.ok (some ((templateOf node).place nextKey nextId)),
        ⟨⟨node, []⟩, nextId + (templateOf node).size, nextKey + (templateOf node).size,
          some ((templateOf node).place nextKey nextId), [eventOf aggregate]⟩) := by
  have typed := typed_templateOf eliminable
  have types : node.types = ((templateOf node).place nextKey nextId).types :=
    (Template.types_place typed nextKey nextId).symm
  have acted : Step.perform action (Firing.start ⟨node, []⟩ nextId nextKey) =
      (.ok (), ⟨⟨node, []⟩, nextId + (templateOf node).size, nextKey + (templateOf node).size,
        some ((templateOf node).place nextKey nextId), [eventOf aggregate]⟩) := by
    rw [action_eq eliminable rfl]
    exact perform_propose types rfl
  have rule : Rule.distinctElimination.action = action := rfl
  rw [Rule.fire, rule, acted]

end DistinctElimination

end QueryPlan
