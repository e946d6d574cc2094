import Mathlib.Logic.Relation
import QueryPlan.Proofs.Elimination.Meaning
import QueryPlan.Proofs.Plan.Substitution
import QueryPlan.Proofs.Rows.Widths

/-!
# Eliminations in plans

An elimination replaces one aggregate of a plan, which is the only node with its
id, by its placed template. The plan stays built, keeps its column types and its
rows, and gets no operators but plain ones. What one elimination preserves is
preserved by any number of them.
-/

namespace QueryPlan

open DistinctElimination PlanNode

/-- An operator that an elimination may add: no distinct call and no table. -/
structure Operator.Plain (operator : Operator) : Prop where
  undistinct : operator.hasDistinctCall = false
  tableless : ∀ table fields, operator ≠ .tableScan table fields

namespace DistinctElimination

variable {aggregate : Aggregate} {node input : PlanNode}

theorem plain_projection (exprs : List Expr) (names : List String) :
    (Operator.projection exprs names).Plain :=
  ⟨rfl, fun _ _ => Operator.noConfusion⟩

theorem plain_join (kind : JoinKind) (condition : Expr) : (Operator.join kind condition).Plain :=
  ⟨rfl, fun _ _ => Operator.noConfusion⟩

theorem plain_aggregate {groupCount : Nat} {calls : List AggregateCall}
    (undistinct : ∀ call ∈ calls, call.distinct = false) :
    (Operator.aggregate ⟨groupCount, calls⟩).Plain := by
  refine ⟨?_, fun _ _ => Operator.noConfusion⟩
  change calls.any (·.distinct) = false
  rw [List.any_eq_false]
  intro call member
  rw [undistinct call member]
  exact Bool.noConfusion

theorem plain_distinctSide (args : List Nat) :
    ∀ operator ∈ (distinctSide aggregate input args).operators, operator.Plain := by
  intro operator member
  simp only [distinctSide, DistinctSelection.template, Template.operators, Template.operatorsAll,
    List.nil_append, List.append_nil, List.mem_append, List.mem_singleton] at member
  rcases member with (rfl | rfl) | rfl
  · exact plain_projection _ _
  · exact plain_aggregate (by simp)
  · apply plain_aggregate
    intro call present
    rcases List.mem_map.mp present with ⟨original, _, rfl⟩
    rfl

theorem plain_plainSide :
    ∀ operator ∈ (plainSide aggregate input).operators, operator.Plain := by
  intro operator member
  simp only [plainSide, Template.operators, Template.operatorsAll, List.nil_append,
    List.append_nil, List.mem_singleton] at member
  rw [member]
  apply plain_aggregate
  intro call present
  have kind := (Aggregate.mem_callsOf.mp present).2
  rw [AggregateCall.kind] at kind
  cases distinct : call.distinct with
  | false => rfl
  | true => simp [distinct] at kind

/-- The new operators of an elimination are plain. -/
theorem plain_templateOf (eliminable : node.Eliminable aggregate input) :
    ∀ operator ∈ (templateOf node).operators, operator.Plain := by
  rw [templateOf_eq eliminable, replacement]
  cases aggregate.soleArguments? with
  | some args => exact plain_distinctSide args
  | none =>
      have sides := foldl_joinSide aggregate input
        (motive := fun _ template => ∀ operator ∈ template.operators, operator.Plain)
        plain_plainSide (by
          intro before args after left _ _ leftPlain operator member
          simp only [joinSide, Template.operators, Template.operatorsAll, List.append_nil,
            List.mem_append, List.mem_singleton] at member
          rcases member with (fromLeft | fromRight) | rfl
          · exact leftPlain operator fromLeft
          · exact plain_distinctSide args operator fromRight
          · exact plain_join _ _)
      intro operator member
      simp only [joined, Template.operators, Template.operatorsAll, List.append_nil,
        List.mem_append, List.mem_singleton] at member
      rcases member with fromSides | rfl
      · exact sides operator fromSides
      · exact plain_projection _ _

/-- An elimination makes at least one new node. -/
theorem size_templateOf (eliminable : node.Eliminable aggregate input) :
    (templateOf node).size ≠ 0 := by
  rw [templateOf_eq eliminable, replacement]
  cases aggregate.soleArguments? with
  | some args => exact Nat.succ_ne_zero _
  | none => exact Nat.succ_ne_zero _

theorem leaves_distinctSide (args : List Nat) :
    (distinctSide aggregate input args).leaves = [input] := rfl

/-- The replacement stands on the input of the aggregate, and on nothing else. -/
theorem mem_leaves_templateOf (eliminable : node.Eliminable aggregate input) {leaf : PlanNode} :
    leaf ∈ (templateOf node).leaves ↔ leaf = input := by
  rw [templateOf_eq eliminable, replacement]
  cases aggregate.soleArguments? with
  | some args => exact List.mem_singleton
  | none =>
      have sides := foldl_joinSide aggregate input
        (motive := fun _ template => leaf ∈ template.leaves ↔ leaf = input)
        (by simp [plainSide, Template.leaves, Template.leavesAll]) (by
          intro before args after left _ _ leftLeaves
          simp only [joinSide, Template.leaves, Template.leavesAll, List.append_nil,
            List.mem_append, leftLeaves, leaves_distinctSide, List.mem_singleton, or_self])
      simpa [joined, Template.leaves, Template.leavesAll] using sides

end DistinctElimination

/-- One elimination in a plan. -/
inductive Elimination : PlanNode → PlanNode → Prop
  | intro {plan target : PlanNode} (occurs : Occurs target plan) (pinned : Pinned target plan)
      (distinct : target.operator.hasDistinctCall = true) (key id : Nat) :
      Elimination plan (substitute target.id ((templateOf target).place key id) plan)

namespace Elimination

variable {before after : PlanNode}

/-- The placed template of a node of a built plan: its types and that it is
built. -/
theorem place_spec {plan target : PlanNode} (built : plan.Built) (occurs : Occurs target plan)
    (distinct : target.operator.hasDistinctCall = true) (key id : Nat) :
    ((templateOf target).place key id).types = target.types ∧
      ((templateOf target).place key id).Built := by
  rcases (built target occurs).eliminable distinct with ⟨aggregate, input, eliminable⟩
  have typed := typed_templateOf eliminable
  refine ⟨Template.types_place typed key id, Template.built_place typed ?_ key id⟩
  intro leaf member
  rcases (mem_leaves_templateOf eliminable).mp member with rfl
  apply (built.of_occurs occurs).input
  rw [eliminable.inputs]
  exact List.mem_singleton_self leaf

theorem built (step : Elimination before after) (built : before.Built) : after.Built := by
  cases step with
  | intro occurs pinned distinct key id =>
      rcases place_spec built occurs distinct key id with ⟨types, replaced⟩
      exact built_substitute built pinned types replaced

theorem types (step : Elimination before after) (built : before.Built) :
    after.types = before.types := by
  cases step with
  | intro occurs pinned distinct key id =>
      exact types_substitute built pinned (place_spec built occurs distinct key id).1

/-- The operators after an elimination are operators of the plan before it, or
plain ones. -/
theorem operator_of_occurs (step : Elimination before after) (built : before.Built)
    {node : PlanNode} (occurs : Occurs node after) :
    node.operator.Plain ∨ ∃ original, Occurs original before ∧ original.operator = node.operator := by
  cases step with
  | @intro target targetOccurs pinned distinct key id =>
      rcases (built target targetOccurs).eliminable distinct with ⟨aggregate, input, eliminable⟩
      rcases occurs_substitute occurs with inReplacement | ⟨original, present, apart, rfl⟩
      · rcases Template.occurs_place _ key id inReplacement with new | ⟨leaf, member, below⟩
        · apply Or.inl
          apply plain_templateOf eliminable
          rw [← Template.map_operator_created _ key id]
          exact List.mem_map_of_mem new
        · rcases (mem_leaves_templateOf eliminable).mp member with rfl
          have isInput : leaf ∈ target.inputs := by
            rw [eliminable.inputs]
            exact List.mem_singleton_self leaf
          exact .inr ⟨node, below.trans ((Occurs.input isInput).trans targetOccurs), rfl⟩
      · exact .inr ⟨original, present, (substitute_of_ne apart).2.2.1.symm⟩

section Rows

variable {interpretation : Interpretation}

theorem fitsTables (step : Elimination before after) (built : before.Built)
    (tables : interpretation.FitsTables before) : interpretation.FitsTables after := by
  intro node table fields occurs scans
  rcases step.operator_of_occurs built occurs with plain | ⟨original, present, equal⟩
  · exact absurd scans (plain.tableless table fields)
  · exact tables original table fields present (equal.trans scans)

/-- An elimination keeps the rows of a plan, whatever is above the aggregate. -/
theorem rows (step : Elimination before after) (respects : interpretation.RespectsWidths)
    (built : before.Built) (tables : interpretation.FitsTables before) :
    interpretation.rows after = interpretation.rows before := by
  cases step with
  | @intro target occurs pinned distinct key id =>
      rcases (built target occurs).eliminable distinct with ⟨aggregate, input, eliminable⟩
      have isInput : Occurs input before := by
        refine (Occurs.input ?_).trans occurs
        rw [eliminable.inputs]
        exact List.mem_singleton_self input
      have uniform := Interpretation.uniform_of_built respects (built.of_occurs isInput)
        (tables.of_occurs isInput)
      have meaning : interpretation.meaning
          (substitute target.id ((templateOf target).place key id) before) =
            interpretation.meaning before := by
        refine image_substitute ?_ pinned ?_
        · intro node present inputs same
          exact Interpretation.meaning_assemble (built node present) same
        · simp only [Interpretation.meaning]
          rw [(place_spec built occurs distinct key id).1,
            interpretation.rows_templateOf eliminable uniform]
      exact congrArg Prod.snd meaning

end Rows

end Elimination

/-- Any number of eliminations, one after the other. -/
abbrev Eliminations : PlanNode → PlanNode → Prop := Relation.ReflTransGen Elimination

namespace Eliminations

variable {before after : PlanNode}

theorem built (steps : Eliminations before after) (built : before.Built) : after.Built := by
  induction steps with
  | refl => exact built
  | tail _ step ih => exact step.built ih

theorem fitsTables {interpretation : Interpretation} (steps : Eliminations before after)
    (built : before.Built) (tables : interpretation.FitsTables before) :
    interpretation.FitsTables after := by
  induction steps with
  | refl => exact tables
  | tail steps step ih => exact step.fitsTables (Eliminations.built steps built) ih

theorem rows {interpretation : Interpretation} (steps : Eliminations before after)
    (respects : interpretation.RespectsWidths) (built : before.Built)
    (tables : interpretation.FitsTables before) :
    interpretation.rows after = interpretation.rows before := by
  induction steps with
  | refl => rfl
  | tail steps step ih =>
      rw [step.rows respects (Eliminations.built steps built)
        (Eliminations.fitsTables steps built tables), ih]

end Eliminations

end QueryPlan
