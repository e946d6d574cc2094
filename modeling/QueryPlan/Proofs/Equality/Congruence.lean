import Mathlib.Data.List.Forall2
import QueryPlan.Proofs.Elimination.Indifference
import QueryPlan.Proofs.Typing.Checking

/-!
# Equality as a congruence

What an operator makes of its inputs does not depend on the bits of its literals:
the check of an expression takes the same branches at the expression with canonical
literals, and so does the derivation of a schema. Equal operators over inputs with
equal schemas therefore have equal schemas, and among built nodes the comparison of
operators, node by node, decides equality (`PlanNode.beqOperators`).
-/

namespace QueryPlan

/-- Errors are replaced after a sequence of steps or after each of them. -/
theorem mapError_bind {α β ε δ : Type} (replace : ε → δ) (first : Except ε α)
    (next : α → Except ε β) :
    (first >>= next).mapError replace =
      first.mapError replace >>= fun value => (next value).mapError replace := by
  cases first <;> rfl

theorem mapError_eq_ok_iff {α ε δ : Type} {replace : ε → δ} {outcome : Except ε α} {value : α} :
    outcome.mapError replace = .ok value ↔ outcome = .ok value := by
  cases outcome <;> simp [Except.mapError]

namespace Float64

theorem not_isNaN_of_isZero {value : Float64} (zero : value.isZero = true) :
    ¬value.isNaN = true := by
  simp only [isZero, Bool.and_eq_true, beq_iff_eq] at zero
  simp [isNaN, zero.1]

/-- The values that are equal to more than themselves are the NaNs and the zeros. -/
theorem beq_iff_values (left right : Float64) :
    (left == right) = true ↔
      left.isNaN = true ∧ right.isNaN = true ∨ left.isZero = true ∧ right.isZero = true ∨
        left = right := by
  have nan : isNaN ⟨0x7ff8000000000000⟩ = true := by decide
  have zero : isZero ⟨0⟩ = true := by decide
  have apart (value : Float64) : value.isZero = true → ¬value.isNaN = true := not_isNaN_of_isZero
  rw [beq_iff, canonical, canonical]
  -- Both canonical patterns are members of the class that they stand for.
  split_ifs <;> grind

end Float64

namespace Literal

/-- Literals are equal when they are the same, both NaN or both zero. -/
theorem beq_iff_values (left right : Literal) :
    (left == right) = true ↔ left = right ∨
      ∃ value other, left = .float64 value ∧ right = .float64 other ∧
        (value.isNaN = true ∧ other.isNaN = true ∨ value.isZero = true ∧ other.isZero = true) := by
  change left.beq right = true ↔ _
  cases left with
  | float64 value =>
      cases right with
      | float64 other =>
          rw [beq, Float64.beq_iff_values, float64.injEq]
          grind
      | boolean _ | int64 _ | utf8 _ => simp [beq]
  | boolean _ | int64 _ | utf8 _ => cases right <;> simp [beq]

end Literal

/-- How many inputs there were when one was missing. -/
def Malformed.shortage? : Malformed → Option Nat
  | arity _ count => some count
  | _ => none

/-- The broken obligation, if the failure is one. -/
def Failure.violation? : Failure → Option Violation
  | error _ => none
  | .violation broken => some broken

namespace Expr

/-- The check takes the same way through an expression with canonical literals. -/
theorem check_canonical (schema : Schema) (expr : Expr) :
    (expr.canonical.check schema).mapError Malformed.shortage? =
      (expr.check schema).mapError Malformed.shortage? := by
  induction expr using Expr.induct with
  | column index type => rfl
  | literal value => rfl
  | call op args ih =>
      rcases args with _ | ⟨left, _ | ⟨right, _ | ⟨third, others⟩⟩⟩
      case cons.cons.nil =>
        simp only [canonical, canonicalAll, check, mapError_bind, ih left (by simp),
          ih right (by simp), type_canonical]
      all_goals rfl

theorem checkCondition_canonical (schema : Schema) (notBoolean : Expr → Malformed)
    (unspecific : ∀ expr, (notBoolean expr).shortage? = none) (condition : Expr) :
    (condition.canonical.checkCondition schema notBoolean).mapError Malformed.shortage? =
      (condition.checkCondition schema notBoolean).mapError Malformed.shortage? := by
  simp only [checkCondition, mapError_bind, check_canonical, type_canonical]
  split_ifs
  · rfl
  · simp only [Except.mapError, unspecific]

theorem validate_eq_ok_of_beq {left right : Expr} (equal : (left == right) = true)
    (schema : Schema) : left.validate schema = .ok () ↔ right.validate schema = .ok () := by
  have same := congrArg (fun expr => (expr.check schema).mapError Malformed.shortage?)
    ((beq_iff left right).mp equal)
  simp only [check_canonical] at same
  rw [validate_eq_ok_iff, validate_eq_ok_iff, ← mapError_eq_ok_iff, same, mapError_eq_ok_iff]

theorem type_eq_of_beq {left right : Expr} (equal : (left == right) = true) :
    left.type = right.type := by
  rw [← type_canonical left, (beq_iff left right).mp equal, type_canonical]

end Expr

/-- Tests that agree on corresponding members agree on the lists. -/
theorem mapError_forM_map {α ε δ : Type} {replace : ε → δ} {image : α → α}
    {test other : α → Except ε Unit}
    (agree : ∀ member, (test (image member)).mapError replace = (other member).mapError replace)
    (members : List α) :
    ((members.map image).forM test).mapError replace = (members.forM other).mapError replace := by
  induction members with
  | nil => rfl
  | cons member rest ih =>
      change (do test (image member); (rest.map image).forM test).mapError replace =
        (do other member; rest.forM other).mapError replace
      simp only [mapError_bind, agree, ih]

namespace Operator

/-- A projection over canonical literals has the same fields, and it misses an input
when the projection itself does. -/
theorem projectionSchema_canonical (exprs : List Expr) (names : List String)
    (inputs : List Schema) :
    (projectionSchema (exprs.map Expr.canonical) names inputs).mapError Malformed.shortage? =
      (projectionSchema exprs names inputs).mapError Malformed.shortage? := by
  rw [projectionSchema, projectionSchema, List.length_map, List.zipWith_map_left]
  simp only [Expr.type_canonical]
  by_cases lengths : exprs.length = names.length
  · simp only [lengths, ne_eq, not_true, if_false, mapError_bind]
    congr 1
    apply mapError_forM_map
    intro expr
    cases inputs with
    | nil => rfl
    | cons input rest => exact Expr.check_canonical input expr
  · simp only [lengths, ne_eq, not_false_eq_true, if_true]
    rfl

theorem outputSchema_canonical (operator : Operator) (inputs : List Schema) :
    (operator.canonical.outputSchema inputs).mapError Malformed.shortage? =
      (operator.outputSchema inputs).mapError Malformed.shortage? := by
  cases operator with
  | aggregate grouping => rfl
  | tableScan table fields => rfl
  | limit count => rfl
  | projection exprs names => exact projectionSchema_canonical exprs names inputs
  | filter predicate =>
      cases inputs with
      | nil => rfl
      | cons input rest =>
          have checks :=
            Expr.checkCondition_canonical input .filterNotBoolean (fun _ => rfl) predicate
          simp only [canonical, outputSchema, mapError_bind, checks]
  | join kind condition =>
      rcases inputs with _ | ⟨left, _ | ⟨right, rest⟩⟩
      · rfl
      · rfl
      · have checks :=
          Expr.checkCondition_canonical (left.join right) .joinNotBoolean (fun _ => rfl) condition
        simp only [canonical, outputSchema, mapError_bind, checks]

/-- A caller that gives too few inputs is told so, and any other refusal is an error. -/
theorem mapError_outputSchemaUnguarded (operator : Operator) (inputs : List Schema) :
    (operator.outputSchemaUnguarded inputs).mapError Failure.violation? =
      ((operator.outputSchema inputs).mapError Malformed.shortage?).mapError
        (Option.map fun count => .indexOutOfRange count count) := by
  rw [outputSchemaUnguarded]
  cases operator.outputSchema inputs with
  | ok schema => rfl
  | error cause => cases cause <;> rfl

/-- Equal operators have equal schemas over the same inputs, or both are refused in
the same manner. -/
theorem outputSchemaUnguarded_of_beq {left right : Operator} (equal : (left == right) = true)
    (inputs : List Schema) :
    (left.outputSchemaUnguarded inputs).mapError Failure.violation? =
      (right.outputSchemaUnguarded inputs).mapError Failure.violation? := by
  rw [mapError_outputSchemaUnguarded, mapError_outputSchemaUnguarded, ← outputSchema_canonical,
    (beq_iff left right).mp equal, outputSchema_canonical]

end Operator

namespace PlanNode

mutual
/-- Equal operators over inputs for which this holds in turn, whatever the schemas are. -/
def beqOperators : PlanNode → PlanNode → Bool
  | ⟨_, _, operator, inputs, _⟩, ⟨_, _, operator', inputs', _⟩ =>
    operator == operator' && beqOperatorsAll inputs inputs'

/-- Equality of the operators in lists of inputs. -/
def beqOperatorsAll : List PlanNode → List PlanNode → Bool
  | [], [] => true
  | left :: lefts, right :: rights => beqOperators left right && beqOperatorsAll lefts rights
  | _, _ => false
end

theorem beqAll_iff_forall₂ (lefts rights : List PlanNode) :
    beqAll lefts rights = true ↔
      List.Forall₂ (fun left right => (left == right) = true) lefts rights := by
  induction lefts generalizing rights with
  | nil => cases rights <;> simp [beqAll]
  | cons left lefts ih =>
      cases rights with
      | nil => simp [beqAll]
      | cons right rights =>
          rw [beqAll, Bool.and_eq_true, ih, List.forall₂_cons]
          rfl

theorem beq_eq (left right : PlanNode) :
    (left == right) = (left.operator == right.operator && beqAll left.inputs right.inputs &&
      left.schema == right.schema) := by
  cases left
  cases right
  rfl

theorem beqOperators_eq (left right : PlanNode) :
    left.beqOperators right =
      (left.operator == right.operator && beqOperatorsAll left.inputs right.inputs) := by
  cases left
  cases right
  simp only [beqOperators]

theorem schema_eq_of_beq {left right : PlanNode} (equal : (left == right) = true) :
    left.schema = right.schema := by
  rw [beq_eq, Bool.and_eq_true] at equal
  exact eq_of_beq equal.2

/-- Checked nodes with equal operators over equal inputs have the same schema. -/
theorem schema_eq_of_inputs {left right : PlanNode} (leftChecked : left.Checked)
    (rightChecked : right.Checked) (operators : (left.operator == right.operator) = true)
    (inputs : List.Forall₂ (fun left right => (left == right) = true) left.inputs right.inputs) :
    left.schema = right.schema := by
  have schemas : left.inputs.map (·.schema) = right.inputs.map (·.schema) := by
    rw [← List.forall₂_eq_eq_eq, List.forall₂_map_left_iff, List.forall₂_map_right_iff]
    exact inputs.imp fun _ _ => schema_eq_of_beq
  have forms : left.operator.form (fun name => name) = right.operator.form (fun name => name) := by
    rw [Operator.form_self, Operator.form_self, (Operator.beq_iff _ _).mp operators]
  have derived := Operator.rename_fields forms
    (congrArg (List.map (·.rename fun name => name)) schemas)
  rwa [Schema.rename_self, Schema.rename_self, ← leftChecked.schema_eq, ← rightChecked.schema_eq]
    at derived

/-- The schemas of checked nodes need not be compared. -/
theorem beq_iff_inputs {left right : PlanNode} (leftChecked : left.Checked)
    (rightChecked : right.Checked) :
    (left == right) = true ↔ (left.operator == right.operator) = true ∧
      List.Forall₂ (fun left right => (left == right) = true) left.inputs right.inputs := by
  rw [beq_eq, Bool.and_eq_true, Bool.and_eq_true, beqAll_iff_forall₂]
  constructor
  · exact fun parts => parts.1
  · rintro ⟨operators, inputs⟩
    exact ⟨⟨operators, inputs⟩,
      beq_iff_eq.mpr (schema_eq_of_inputs leftChecked rightChecked operators inputs)⟩

theorem beqOperatorsAll_of_members {lefts rights : List PlanNode}
    (members : ∀ left ∈ lefts, ∀ right ∈ rights, left.beqOperators right = left.beq right) :
    beqOperatorsAll lefts rights = beqAll lefts rights := by
  induction lefts generalizing rights with
  | nil => cases rights <;> rfl
  | cons left lefts ih =>
      cases rights with
      | nil => rfl
      | cons right rights =>
          have tail := @ih rights fun member listed other otherListed =>
            members member (List.mem_cons_of_mem _ listed) other (List.mem_cons_of_mem _ otherListed)
          rw [beqOperatorsAll, beqAll, tail,
            members left List.mem_cons_self right List.mem_cons_self]

/-- No schema of a built node has a say in its equality. -/
theorem beqOperators_eq_beq {left right : PlanNode} (leftBuilt : left.Built)
    (rightBuilt : right.Built) : left.beqOperators right = (left == right) := by
  induction left using PlanNode.induct generalizing right with
  | node key id operator inputs schema ih =>
      have below : beqOperatorsAll inputs right.inputs = beqAll inputs right.inputs :=
        beqOperatorsAll_of_members fun input listed other otherListed =>
          ih input listed (leftBuilt.input listed) (rightBuilt.input otherListed)
      rw [Bool.eq_iff_iff, beq_iff_inputs (leftBuilt _ .here) (rightBuilt _ .here),
        ← beqAll_iff_forall₂, beqOperators_eq, below, Bool.and_eq_true]

end PlanNode

theorem equivalence_beq {α : Type} [BEq α] [EquivBEq α] :
    Equivalence fun left right : α => (left == right) = true :=
  ⟨fun _ => BEq.rfl, BEq.symm, BEq.trans⟩

/-- Equality is a congruence that operators alone decide. Only NaNs and zeros are
equal without being the same. On expressions, operators and nodes equality is an
equivalence. Equal expressions have the same type and are accepted over the same
schemas; equal operators derive the same schema from the same inputs or are both
refused, as an error or for a missing input. Built nodes are equal when their
operators are equal and their inputs are, one by one, so the operators of the nodes
give the answer without any schema, id or key. -/
theorem equality_exact :
    (∀ left right : Literal, (left == right) = true ↔ left = right ∨
      ∃ value other, left = .float64 value ∧ right = .float64 other ∧
        (value.isNaN = true ∧ other.isNaN = true ∨ value.isZero = true ∧ other.isZero = true)) ∧
    (Equivalence fun left right : Expr => (left == right) = true) ∧
    (Equivalence fun left right : Operator => (left == right) = true) ∧
    (Equivalence fun left right : PlanNode => (left == right) = true) ∧
    (∀ left right : Expr, (left == right) = true → left.type = right.type ∧
      ∀ schema, left.validate schema = .ok () ↔ right.validate schema = .ok ()) ∧
    (∀ left right : Operator, (left == right) = true → ∀ inputs,
      (left.outputSchemaUnguarded inputs).mapError Failure.violation? =
        (right.outputSchemaUnguarded inputs).mapError Failure.violation?) ∧
    (∀ left right : PlanNode, left.Built → right.Built →
      ((left == right) = true ↔ (left.operator == right.operator) = true ∧
        List.Forall₂ (fun left right => (left == right) = true) left.inputs right.inputs) ∧
      (left == right) = left.beqOperators right) := by
  refine ⟨Literal.beq_iff_values, equivalence_beq, equivalence_beq, equivalence_beq,
    ?expressions, ?operators, ?nodes⟩
  case expressions =>
    intro left right equal
    exact ⟨Expr.type_eq_of_beq equal, Expr.validate_eq_ok_of_beq equal⟩
  case operators => exact fun left right => Operator.outputSchemaUnguarded_of_beq
  case nodes =>
    intro left right leftBuilt rightBuilt
    exact ⟨PlanNode.beq_iff_inputs (leftBuilt _ .here) (rightBuilt _ .here),
      (PlanNode.beqOperators_eq_beq leftBuilt rightBuilt).symm⟩

/-- `equality_exact` for a zero of each sign, in conditions, in filters, and below
joins of one shared node and of two nodes. -/
theorem equality_exact_zeros :
    let condition := fun bits => (Expr.literal (.float64 ⟨bits⟩)).equal (.literal (.float64 ⟨bits⟩))
    let positive := condition 0
    let negative := condition 0x8000000000000000
    (positive == negative) = true ∧ positive.type = negative.type ∧
    negative.validate Sample.orders.schema = .ok () ∧
    (Operator.filter positive == .filter negative) = true ∧
    (Operator.filter negative).outputSchemaUnguarded [Sample.orders.schema] =
      .ok Sample.orders.schema ∧
    Sample.sharedPairs.Built ∧ Sample.separatePairs.Built ∧
    (Sample.sharedPairs.operator == Sample.separatePairs.operator) = true ∧
    List.Forall₂ (fun left right => (left == right) = true) Sample.sharedPairs.inputs
      Sample.separatePairs.inputs ∧
    Sample.sharedPairs.beqOperators Sample.separatePairs = true := by
  intro condition positive negative
  obtain ⟨_, _, _, _, expressions, operators, nodes⟩ := equality_exact
  have conditions : (positive == negative) = true := (Expr.beq_iff _ _).mpr rfl
  have filters : (Operator.filter positive == .filter negative) = true :=
    (Operator.beq_iff _ _).mpr rfl
  obtain ⟨types, accepted⟩ := expressions positive negative conditions
  have derived := operators _ _ filters [Sample.orders.schema]
  have leftBuilt : Sample.sharedPairs.Built := Sample.sharedPairs_valid.built
  have rightBuilt : Sample.separatePairs.Built := Sample.separatePairs_valid.built
  obtain ⟨congruent, alone⟩ := nodes _ _ leftBuilt rightBuilt
  have parts := congruent.mp Sample.sharedPairs_beq_separatePairs
  exact ⟨conditions, types, (accepted Sample.orders.schema).mp rfl, filters,
    mapError_eq_ok_iff.mp derived.symm, leftBuilt, rightBuilt, parts.1, parts.2,
    alone.symm.trans Sample.sharedPairs_beq_separatePairs⟩

end QueryPlan
