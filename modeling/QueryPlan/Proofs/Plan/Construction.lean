import QueryPlan.Proofs.Plan.Validity

/-!
# Which nodes can be built

`Operator.Accepts` says what an operator asks of the fields of its inputs,
without saying in which order it is checked. A node is built exactly when its
inputs are as many as its operator takes and are accepted by it. Everything else
is reported: a check that sees the right number of inputs never reaches for one
that is not there.
-/

namespace QueryPlan

namespace Operator

/-- What an operator asks of the fields of its inputs when their number is right. -/
def Accepts : Operator → List Schema → Prop
  | .aggregate grouping, [input] =>
    grouping.groupCount ≤ input.width ∧
      ∀ call ∈ grouping.calls, (∀ arg ∈ call.args, arg < input.width) ∧
        (call.args = [] → call.function = .count ∧ call.distinct = false)
  | .projection exprs names, [input] =>
    names.length = exprs.length ∧ ∀ expr ∈ exprs, ∃ type, Expr.Typed input.types expr type
  | .filter predicate, [input] => Expr.Typed input.types predicate .boolean
  | .join _ condition, [left, right] => Expr.Typed (left.types ++ right.types) condition .boolean
  | _, _ => True

theorem Typed.accepts {operator : Operator} {inputs : List Schema} {types : List ScalarType}
    (typed : operator.Typed (inputs.map Schema.types) types) : operator.Accepts inputs := by
  cases operator with
  | tableScan table declared =>
      match inputs, typed with
      | [], .tableScan _ _ => trivial
  | aggregate grouping =>
      match inputs, typed with
      | [input], .aggregate fits =>
          rw [Schema.length_types] at fits
          refine ⟨fits.groups, ?_⟩
          intro call member
          have callFits := fits.calls call member
          exact ⟨callFits.bounded, fun none => (callFits.argless none).symm⟩
  | projection exprs names =>
      match inputs, typed with
      | [input], .projection lengths exprsTyped =>
          exact ⟨lengths.symm, fun expr member => ⟨expr.type, exprsTyped expr member⟩⟩
  | join kind condition =>
      match inputs, typed with
      | [left, right], .join _ conditionTyped => exact conditionTyped
  | filter predicate =>
      match inputs, typed with
      | [input], .filter predicateTyped => exact predicateTyped
  | limit count =>
      match inputs, typed with
      | [input], .limit _ _ => trivial

theorem Accepts.typed {operator : Operator} {inputs : List Schema}
    (arity : inputs.length = operator.arity) (accepts : operator.Accepts inputs) :
    ∃ types, operator.Typed (inputs.map Schema.types) types := by
  cases operator with
  | tableScan table declared =>
      match inputs, arity with
      | [], _ => exact ⟨_, .tableScan table declared⟩
  | aggregate grouping =>
      match inputs, arity, accepts with
      | [input], _, ⟨groups, calls⟩ =>
          refine ⟨_, .aggregate ?_⟩
          rw [Schema.length_types]
          refine ⟨groups, ?_⟩
          intro call member
          exact ⟨fun none => ((calls call member).2 none).symm, (calls call member).1⟩
  | projection exprs names =>
      match inputs, arity, accepts with
      | [input], _, ⟨lengths, typed⟩ =>
          refine ⟨_, .projection lengths.symm ?_⟩
          intro expr member
          rcases typed expr member with ⟨type, exprTyped⟩
          rwa [exprTyped.type_eq]
  | join kind condition =>
      match inputs, arity, accepts with
      | [left, right], _, typed => exact ⟨_, .join kind typed⟩
  | filter predicate =>
      match inputs, arity, accepts with
      | [input], _, typed => exact ⟨_, .filter typed⟩
  | limit count =>
      match inputs, arity with
      | [input], _ => exact ⟨_, .limit count _⟩

/-- An operator is typed over as many inputs as it takes, if it accepts them. -/
theorem typed_iff_accepts {operator : Operator} {inputs : List Schema} :
    (∃ types, operator.Typed (inputs.map Schema.types) types) ↔
      inputs.length = operator.arity ∧ operator.Accepts inputs := by
  constructor
  · rintro ⟨types, typed⟩
    exact ⟨(outputSchema_of_typed typed).1, typed.accepts⟩
  · rintro ⟨arity, accepts⟩
    exact accepts.typed arity

end Operator

/-- Whether a check does not fail for the number of inputs. -/
def Counted {α : Type} (checked : Except Malformed α) : Prop :=
  ∀ operator count, checked ≠ .error (.arity operator count)

section Counted

variable {α β : Type}

theorem counted_ok (value : α) : Counted (.ok value) := by
  simp [Counted]

theorem counted_error {cause : Malformed} (other : ∀ operator count, cause ≠ .arity operator count) :
    Counted (.error cause : Except Malformed α) :=
  fun operator count equal => other operator count (Except.error.inj equal)

theorem counted_bind {first : Except Malformed α} {next : α → Except Malformed β}
    (counted : Counted first) (later : ∀ value, Counted (next value)) :
    Counted (first >>= next) := by
  cases first with
  | error cause =>
      intro operator count equal
      exact counted operator count (congrArg Except.error (Except.error.inj equal))
  | ok value => exact later value

theorem counted_guard {refused : Prop} [Decidable refused] {cause : Malformed}
    {rest : Except Malformed α} (other : ∀ operator count, cause ≠ .arity operator count)
    (counted : Counted rest) :
    Counted (do if refused then Except.error cause
                rest) := by
  by_cases holds : refused
  · rw [if_pos holds]
    exact counted_error other
  · rw [if_neg holds]
    exact counted

theorem counted_forM {members : List α} {test : α → Except Malformed Unit}
    (counted : ∀ member ∈ members, Counted (test member)) : Counted (members.forM test) := by
  induction members with
  | nil => exact counted_ok ()
  | cons first rest ih =>
      obtain ⟨head, tail⟩ := List.forall_mem_cons.mp counted
      exact counted_bind head fun _ => ih tail

theorem Expr.counted_check (expr : Expr) (schema : Schema) : Counted (expr.check schema) := by
  induction expr using Expr.induct with
  | column index type =>
      rw [check]
      split
      · exact counted_error (by simp)
      · split
        · exact counted_ok ()
        · exact counted_error (by simp)
  | literal value => exact counted_ok ()
  | call op args ih =>
      -- Only a call of two arguments checks them.
      rcases args with _ | ⟨left, _ | ⟨right, _ | ⟨third, others⟩⟩⟩
      case cons.cons.nil =>
        refine counted_bind (ih left (by simp)) fun _ =>
          counted_bind (ih right (by simp)) fun _ => ?_
        split
        · exact counted_ok ()
        · exact counted_error (by simp)
      all_goals
        rw [check]
        · exact counted_error (by simp)
        · simp

theorem Expr.counted_checkCondition (condition : Expr) (schema : Schema)
    {notBoolean : Expr → Malformed}
    (other : ∀ operator count, notBoolean condition ≠ .arity operator count) :
    Counted (condition.checkCondition schema notBoolean) := by
  refine counted_bind (condition.counted_check schema) fun _ => ?_
  split
  · exact counted_ok ()
  · exact counted_error other

theorem AggregateCall.counted_check (call : AggregateCall) (input : Schema) :
    Counted (call.check input) := by
  rw [check]
  split
  · exact counted_error (by simp)
  · split
    · exact counted_error (by simp)
    · split
      · exact counted_error (by simp)
      · exact counted_ok ()

theorem Aggregate.counted_outputSchema (aggregate : Aggregate) (input : Schema) :
    Counted (aggregate.outputSchema input) := by
  refine counted_guard (by simp) (counted_bind ?_ fun _ => counted_ok _)
  exact counted_forM fun call _ => call.counted_check input

/-- With the right number of inputs no input is missing in a check. -/
theorem Operator.counted_outputSchema {operator : Operator} {inputs : List Schema}
    (arity : inputs.length = operator.arity) : Counted (operator.outputSchema inputs) := by
  cases operator with
  | tableScan table declared => exact counted_ok _
  | aggregate grouping =>
      match inputs, arity with
      | [input], _ => exact grouping.counted_outputSchema input
  | projection exprs names =>
      match inputs, arity with
      | [input], _ =>
          refine counted_guard (by simp) (counted_bind ?_ fun _ => counted_ok _)
          exact counted_forM fun expr _ => expr.counted_check input
  | join kind condition =>
      match inputs, arity with
      | [left, right], _ =>
          exact counted_bind (condition.counted_checkCondition _ (by simp)) fun _ =>
            counted_ok _
  | filter predicate =>
      match inputs, arity with
      | [input], _ =>
          exact counted_bind (predicate.counted_checkCondition _ (by simp)) fun _ =>
            counted_ok _
  | limit count =>
      match inputs, arity with
      | [input], _ => exact counted_ok _

end Counted

/-- A caller that gives the right number of inputs meets no violation. -/
theorem Operator.outputSchemaUnguarded_ne_violation {operator : Operator} {inputs : List Schema}
    (arity : inputs.length = operator.arity) (violation : Violation) :
    operator.outputSchemaUnguarded inputs ≠ .error (.violation violation) := by
  have counted := counted_outputSchema arity
  rw [outputSchemaUnguarded]
  split
  · simp
  · rename_i other count found
    exact absurd found (counted other count)
  · simp

namespace PlanNode

variable {key id : Nat} {operator : Operator} {inputs : List PlanNode}

/-- A node is built when its inputs are as many as they should be and accepted. -/
theorem exists_build_iff :
    (∃ node, build key id operator inputs = .ok node) ↔
      inputs.length = operator.arity ∧ operator.Accepts (inputs.map (·.schema)) := by
  have accepts := @Operator.typed_iff_accepts operator (inputs.map (·.schema))
  rw [map_types_schema, List.length_map] at accepts
  rw [← accepts]
  constructor
  · rintro ⟨node, accepted⟩
    exact ⟨_, (typed_of_build accepted).1⟩
  · rintro ⟨types, typed⟩
    exact ⟨_, (build_of_typed typed).1⟩

/-- A node that is not built is reported with what is wrong, and with its
operator unless the inputs are too few or too many. -/
theorem error_of_build {error : PlanError} (refused : build key id operator inputs = .error error) :
    inputs.length ≠ operator.arity ∧ error = .malformed (.arity operator inputs.length) ∨
      inputs.length = operator.arity ∧
        ∃ cause, error = (PlanError.malformed cause).during (.building operator) := by
  rw [build] at refused
  split at refused
  · rename_i arity
    exact .inl ⟨arity, (Except.error.inj refused).symm⟩
  · rename_i arity
    refine .inr ⟨Classical.not_not.mp arity, ?_⟩
    split at refused
    · simp at refused
    · rename_i cause _
      exact ⟨cause, (Except.error.inj refused).symm⟩

/-- A node that is built over built inputs makes up a built plan. -/
theorem built_of_build {node : PlanNode} (accepted : build key id operator inputs = .ok node)
    (built : ∀ input ∈ inputs, input.Built) : node.Built := by
  rcases typed_of_build accepted with ⟨typed, rfl⟩
  exact built_assemble typed built

/-- Every node of a built plan is accepted once more, with the fields that it has. -/
theorem Built.accepts {plan node : PlanNode} (built : plan.Built) (occurs : Occurs node plan) :
    node.inputs.length = node.operator.arity ∧
      node.operator.Accepts (node.inputs.map (·.schema)) ∧
      node.schema = node.operator.fields (node.inputs.map (·.schema)) := by
  have checked := built node occurs
  obtain ⟨arity, accepts⟩ := exists_build_iff.mp ⟨node, checked⟩
  exact ⟨arity, accepts, checked.schema_eq⟩

end PlanNode

end QueryPlan
