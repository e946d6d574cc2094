import QueryPlan.Operator.Output
import QueryPlan.Proofs.Typing.Expr

/-!
# Types of operators

`Operator.Typed` says which column types an operator accepts and which it
produces, and `Operator.fields` names the produced columns. `outputSchema` is
these two together: it succeeds exactly on the inputs that are typed, and then
gives the named fields (`Operator.outputSchema_of_typed`,
`Operator.typed_of_outputSchema`).
-/

namespace QueryPlan

theorem forM_eq_ok_iff {ε α : Type} (members : List α) (test : α → Except ε Unit) :
    members.forM test = .ok () ↔ ∀ member ∈ members, test member = .ok () := by
  induction members with
  | nil => simp [List.forM_nil, pure, Except.pure]
  | cons member rest ih =>
      change (do test member; rest.forM test) = .ok () ↔ _
      rw [bind_unit_eq_ok, ih, List.forall_mem_cons]

/-- A guard that is passed on success. -/
theorem guard_bind_eq_ok {ε α : Type} {refused : Prop} [Decidable refused] {error : ε}
    {rest : Except ε α} {value : α} :
    (do if refused then Except.error error
        rest) = .ok value ↔ ¬refused ∧ rest = .ok value := by
  by_cases holds : refused <;> simp [holds, Bind.bind, Except.bind]

/-- A call that rows of some width have columns for. Only a plain count may do
without arguments. -/
structure AggregateCall.Fits (call : AggregateCall) (width : Nat) : Prop where
  argless : call.args = [] → call.distinct = false ∧ call.function = .count
  bounded : ∀ arg ∈ call.args, arg < width

theorem AggregateCall.check_eq_ok_iff {call : AggregateCall} {input : Schema} :
    call.check input = .ok () ↔ call.Fits input.width := by
  simp only [AggregateCall.check]
  by_cases empty : call.args = []
  · cases distinct : call.distinct with
    | true =>
        simp only [empty, and_self, if_true, reduceCtorEq, false_iff]
        intro fits
        have plain := (fits.argless empty).1
        rw [distinct] at plain
        exact Bool.noConfusion plain
    | false =>
        by_cases count : call.function = .count
        · simp only [empty, Bool.false_eq_true, false_and, if_false, count, ne_eq, not_true,
            and_false, List.find?_nil, true_iff]
          exact ⟨fun _ => ⟨distinct, count⟩, by simp [empty]⟩
        · simp only [empty, Bool.false_eq_true, false_and, if_false, count, ne_eq, not_false_iff,
            and_self, if_true, reduceCtorEq, false_iff]
          exact fun fits => count (fits.argless empty).2
  · simp only [empty, and_false, if_false, false_and]
    constructor
    · intro accepted
      refine ⟨fun none => absurd none empty, ?_⟩
      intro arg member
      cases found : call.args.find? (input.width ≤ ·) with
      | some missing => simp [found] at accepted
      | none =>
          have inRange := List.find?_eq_none.mp found arg member
          simpa using inRange
    · intro fits
      have found : call.args.find? (input.width ≤ ·) = none := by
        rw [List.find?_eq_none]
        intro arg member
        have bound := fits.bounded arg member
        simpa using bound
      rw [found]

/-- An aggregate that rows of some width have columns for. -/
structure Aggregate.Fits (aggregate : Aggregate) (width : Nat) : Prop where
  groups : aggregate.groupCount ≤ width
  calls : ∀ call ∈ aggregate.calls, call.Fits width

theorem Aggregate.outputSchema_eq_ok_iff {aggregate : Aggregate} {input schema : Schema} :
    aggregate.outputSchema input = .ok schema ↔
      aggregate.Fits input.width ∧
        schema = ⟨input.fields.take aggregate.groupCount ++
          aggregate.calls.map AggregateCall.field⟩ := by
  rw [Aggregate.outputSchema]
  rw [guard_bind_eq_ok, bind_unit_eq_ok, forM_eq_ok_iff]
  constructor
  · rintro ⟨groups, calls, equal⟩
    refine ⟨⟨by omega, ?_⟩, (Except.ok.inj equal).symm⟩
    intro call member
    exact AggregateCall.check_eq_ok_iff.mp (calls call member)
  · rintro ⟨fits, rfl⟩
    have groups := fits.groups
    refine ⟨by omega, ?_, rfl⟩
    intro call member
    exact AggregateCall.check_eq_ok_iff.mpr (fits.calls call member)

namespace Operator

/-- The column types that an operator accepts, and those that it produces. -/
inductive Typed : Operator → List (List ScalarType) → List ScalarType → Prop
  | tableScan (table : String) (fields : Schema) : Typed (.tableScan table fields) [] fields.types
  | aggregate {grouping : Aggregate} {input : List ScalarType} :
      grouping.Fits input.length →
      Typed (.aggregate grouping) [input]
        (input.take grouping.groupCount ++ grouping.calls.map (·.resultType))
  | projection {exprs : List Expr} {names : List String} {input : List ScalarType} :
      exprs.length = names.length → (∀ expr ∈ exprs, Expr.Typed input expr expr.type) →
      Typed (.projection exprs names) [input] (exprs.map (·.type))
  | join (kind : JoinKind) {condition : Expr} {left right : List ScalarType} :
      Expr.Typed (left ++ right) condition .boolean →
      Typed (.join kind condition) [left, right] (left ++ right)
  | filter {predicate : Expr} {input : List ScalarType} :
      Expr.Typed input predicate .boolean → Typed (.filter predicate) [input] input
  | limit (count : Nat) (input : List ScalarType) : Typed (.limit count) [input] input

/-- The fields that an operator gives its output over inputs it accepts. -/
def fields : Operator → List Schema → Schema
  | .tableScan _ fields, _ => fields
  | .aggregate grouping, input :: _ =>
    ⟨input.fields.take grouping.groupCount ++ grouping.calls.map AggregateCall.field⟩
  | .projection exprs names, _ => ⟨List.zipWith (fun expr name => ⟨name, expr.type⟩) exprs names⟩
  | .join _ _, left :: right :: _ => left.join right
  | .filter _, input :: _ => input
  | .limit _, input :: _ => input
  | _, _ => ⟨[]⟩

theorem projectionSchema_eq_ok_iff {exprs : List Expr} {names : List String}
    {input schema : Schema} :
    projectionSchema exprs names [input] = .ok schema ↔
      exprs.length = names.length ∧ (∀ expr ∈ exprs, Expr.Typed input.types expr expr.type) ∧
        schema = ⟨List.zipWith (fun expr name => ⟨name, expr.type⟩) exprs names⟩ := by
  rw [projectionSchema]
  rw [guard_bind_eq_ok, bind_unit_eq_ok, forM_eq_ok_iff, Classical.not_not, Except.ok.injEq,
    eq_comm (b := schema)]
  simp only [Expr.check_eq_ok_iff]

theorem types_zipWith {exprs : List Expr} {names : List String}
    (lengths : exprs.length = names.length) :
    Schema.types ⟨List.zipWith (fun expr name => ⟨name, expr.type⟩) exprs names⟩ =
      exprs.map (·.type) := by
  induction exprs generalizing names with
  | nil => rfl
  | cons expr exprs ih =>
      cases names with
      | nil => simp at lengths
      | cons name names =>
          have tail := @ih names (by simpa using lengths)
          simp only [Schema.types] at tail ⊢
          simp [tail]

theorem types_aggregateFields (grouping : Aggregate) (input : Schema) :
    Schema.types ⟨input.fields.take grouping.groupCount ++
        grouping.calls.map AggregateCall.field⟩ =
      input.types.take grouping.groupCount ++ grouping.calls.map (·.resultType) := by
  simp [Schema.types, AggregateCall.field, List.map_take]

/-- What passes the check is typed and has the fields of its operator. -/
theorem typed_of_outputSchema {operator : Operator} {inputs : List Schema} {schema : Schema}
    (arity : inputs.length = operator.arity) (accepted : operator.outputSchema inputs = .ok schema) :
    Typed operator (inputs.map Schema.types) schema.types ∧ schema = operator.fields inputs := by
  cases operator with
  | tableScan table declared =>
      match inputs, arity with
      | [], _ =>
          rcases Except.ok.inj accepted with rfl
          exact ⟨.tableScan table declared, rfl⟩
  | aggregate grouping =>
      match inputs, arity with
      | [input], _ =>
          rcases Aggregate.outputSchema_eq_ok_iff.mp accepted with ⟨fits, rfl⟩
          refine ⟨?_, rfl⟩
          rw [types_aggregateFields]
          exact .aggregate (by rwa [Schema.length_types])
  | projection exprs names =>
      match inputs, arity with
      | [input], _ =>
          rcases projectionSchema_eq_ok_iff.mp accepted with ⟨lengths, typed, rfl⟩
          refine ⟨?_, rfl⟩
          rw [types_zipWith lengths]
          exact .projection lengths typed
  | join kind condition =>
      match inputs, arity with
      | [left, right], _ =>
          rcases bind_unit_eq_ok.mp accepted with ⟨typed, equal⟩
          rcases Except.ok.inj equal with rfl
          rw [Expr.checkCondition_eq_ok_iff, Schema.types_join] at typed
          refine ⟨?_, rfl⟩
          rw [Schema.types_join]
          exact .join kind typed
  | filter predicate =>
      match inputs, arity with
      | [input], _ =>
          rcases bind_unit_eq_ok.mp accepted with ⟨typed, equal⟩
          rcases Except.ok.inj equal with rfl
          exact ⟨.filter (Expr.checkCondition_eq_ok_iff predicate |>.mp typed), rfl⟩
  | limit count =>
      match inputs, arity with
      | [input], _ =>
          rcases Except.ok.inj accepted with rfl
          exact ⟨.limit count _, rfl⟩

/-- What is typed passes the check. The types alone decide, so inputs may be
exchanged for others with the same types. -/
theorem outputSchema_of_typed {operator : Operator} {inputs : List Schema}
    {types : List ScalarType} (typed : Typed operator (inputs.map Schema.types) types) :
    inputs.length = operator.arity ∧ operator.outputSchema inputs = .ok (operator.fields inputs) ∧
      (operator.fields inputs).types = types := by
  cases operator with
  | tableScan table declared =>
      match inputs, typed with
      | [], .tableScan _ _ => exact ⟨rfl, rfl, rfl⟩
  | aggregate grouping =>
      match inputs, typed with
      | [input], .aggregate fits =>
          rw [Schema.length_types] at fits
          exact ⟨rfl, Aggregate.outputSchema_eq_ok_iff.mpr ⟨fits, rfl⟩,
            types_aggregateFields grouping input⟩
  | projection exprs names =>
      match inputs, typed with
      | [input], .projection lengths exprsTyped =>
          exact ⟨rfl, projectionSchema_eq_ok_iff.mpr ⟨lengths, exprsTyped, rfl⟩,
            types_zipWith lengths⟩
  | join kind condition =>
      match inputs, typed with
      | [left, right], .join _ conditionTyped =>
          refine ⟨rfl, bind_unit_eq_ok.mpr ⟨?_, rfl⟩, Schema.types_join left right⟩
          rw [Expr.checkCondition_eq_ok_iff, Schema.types_join]
          exact conditionTyped
  | filter predicate =>
      match inputs, typed with
      | [input], .filter predicateTyped =>
          exact ⟨rfl, bind_unit_eq_ok.mpr
            ⟨(Expr.checkCondition_eq_ok_iff predicate).mpr predicateTyped, rfl⟩, rfl⟩
  | limit count =>
      match inputs, typed with
      | [input], .limit _ _ => exact ⟨rfl, rfl, rfl⟩

end Operator

end QueryPlan
