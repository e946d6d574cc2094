import QueryPlan.Proofs.Typing.Soundness

/-!
# Checking expressions over joined schemas

The check accepts the expressions that have a typing derivation, and a refusal
names a part that is wrong in itself while everything within that part is right
(`Expr.Fault`). A schema may be joined with another one on either side. With
further fields behind its own, the derivations stay as they are; with others
before them, all columns are raised by the number of these fields.
-/

namespace QueryPlan.Expr

/-- What may be wrong with an expression whose arguments are all right. -/
inductive Fault (schema : Schema) : Expr → Malformed → Prop
  | missing {index : Nat} {type : ScalarType} :
      schema.width ≤ index → Fault schema (.column index type) (.columnOutOfRange index schema.width)
  | declared {index : Nat} {type : ScalarType} {field : Field} :
      schema.field? index = some field → field.type ≠ type →
      Fault schema (.column index type) (.columnType index type field)
  | count {op : ScalarOp} {args : List Expr} :
      args.length ≠ 2 → Fault schema (.call op args) (.argumentCount op args.length)
  | types {op : ScalarOp} {left right : Expr} :
      Typed schema.types left left.type → Typed schema.types right right.type →
      ¬Typed schema.types (.call op [left, right]) .boolean →
      Fault schema (.call op [left, right]) (.argumentTypes op left.type right.type)

mutual
/-- The expression with all columns raised by `count`. -/
def raise (count : Nat) : Expr → Expr
  | column index type => .column (count + index) type
  | literal value => .literal value
  | call op args => .call op (raiseAll count args)

/-- The expressions with all columns raised by `count`. -/
def raiseAll (count : Nat) : List Expr → List Expr
  | [] => []
  | arg :: args => arg.raise count :: raiseAll count args
end

/-- The check with its refusal as an error of the plan. -/
def validate (schema : Schema) (expr : Expr) : Except PlanError Unit :=
  (expr.check schema).mapError PlanError.malformed

variable {types : List ScalarType} {type : ScalarType} {schema : Schema} {expr : Expr}

theorem validate_eq_ok_iff : expr.validate schema = .ok () ↔ expr.check schema = .ok () := by
  rw [validate]
  cases expr.check schema <;> simp [Except.mapError]

theorem validate_eq_error_iff {error : PlanError} :
    expr.validate schema = .error error ↔
      ∃ cause, expr.check schema = .error cause ∧ error = .malformed cause := by
  rw [validate]
  cases expr.check schema <;> simp [Except.mapError, eq_comm]

@[simp] theorem type_raise (count : Nat) (expr : Expr) : (expr.raise count).type = expr.type := by
  cases expr with
  | column index type => simp only [raise, Expr.type]
  | literal value => simp only [raise]
  | call op args => simp only [raise, Expr.type]

section Refusals

theorem fault_of_check_column {index : Nat} {cause : Malformed}
    (refused : (Expr.column index type).check schema = .error cause) :
    Fault schema (.column index type) cause := by
  rw [check] at refused
  cases found : schema.field? index with
  | none =>
      rw [found] at refused
      obtain rfl := Except.error.inj refused
      exact .missing (List.getElem?_eq_none_iff.mp found)
  | some field =>
      rw [found] at refused
      by_cases same : field.type = type
      · simp [same] at refused
      · simp only [same, if_false, Except.error.injEq] at refused
        obtain rfl := refused
        exact .declared found same

/-- A call of two arguments is refused for the left one, for the right one when
the left one is right, or for their types when both are. -/
theorem check_binary_eq_error {op : ScalarOp} {left right : Expr} {cause : Malformed}
    (refused : (Expr.call op [left, right]).check schema = .error cause) :
    left.check schema = .error cause ∨ right.check schema = .error cause ∨
      Fault schema (.call op [left, right]) cause := by
  cases leftChecked : left.check schema with
  | error leftCause =>
      rw [check, leftChecked] at refused
      exact .inl refused
  | ok _ =>
      cases rightChecked : right.check schema with
      | error rightCause =>
          rw [check, leftChecked, rightChecked] at refused
          exact .inr (.inl refused)
      | ok _ =>
          have ill : ¬Typed schema.types (.call op [left, right]) .boolean := by
            intro typed
            rw [(typed_iff.mp typed).1] at refused
            simp at refused
          have fault := Fault.types ((check_eq_ok_iff left).mp leftChecked)
            ((check_eq_ok_iff right).mp rightChecked) ill
          rw [check, leftChecked, rightChecked] at refused
          change (if op.accepts left.type right.type then .ok ()
            else .error (.argumentTypes op left.type right.type)) = Except.error cause at refused
          split at refused
          · simp at refused
          · obtain rfl := Except.error.inj refused
            exact .inr (.inr fault)

/-- A refusal names a part of the expression and what is wrong with it. -/
theorem fault_of_check {cause : Malformed} (refused : expr.check schema = .error cause) :
    ∃ part, Within part expr ∧ Fault schema part cause := by
  induction expr using Expr.induct with
  | column index type => exact ⟨_, .here, fault_of_check_column refused⟩
  | literal value =>
      rw [check] at refused
      simp at refused
  | call op args ih =>
      rcases args with _ | ⟨left, _ | ⟨right, _ | ⟨third, others⟩⟩⟩
      case cons.cons.nil =>
        rcases check_binary_eq_error refused with inLeft | inRight | fault
        · obtain ⟨part, within, fault⟩ := ih left (by simp) inLeft
          exact ⟨part, .argument (by simp) within, fault⟩
        · obtain ⟨part, within, fault⟩ := ih right (by simp) inRight
          exact ⟨part, .argument (by simp) within, fault⟩
        · exact ⟨_, .here, fault⟩
      -- Any other number of arguments is wrong in itself.
      all_goals
        rw [check] at refused
        · obtain rfl := Except.error.inj refused
          exact ⟨_, .here, .count (by simp)⟩
        · simp

end Refusals

section Joins

/-- Further columns at the end change no derivation. -/
theorem Typed.append (typed : Typed types expr type) (after : List ScalarType) :
    Typed (types ++ after) expr type := by
  induction typed with
  | column found =>
      rename_i index _
      have bound := (List.getElem?_eq_some_iff.mp found).1
      exact .column ((List.getElem?_append_left bound).trans found)
  | literal value => exact .literal value
  | equals _ _ leftTyped rightTyped => exact .equals leftTyped rightTyped
  | and _ _ leftTyped rightTyped => exact .and leftTyped rightTyped

/-- With further columns in front, all columns are raised by their number. -/
theorem Typed.raise (typed : Typed types expr type) (before : List ScalarType) :
    Typed (before ++ types) (expr.raise before.length) type := by
  induction typed with
  | column found =>
      simp only [Expr.raise]
      exact .column (by rwa [List.getElem?_append_right (Nat.le_add_right _ _), Nat.add_sub_cancel_left])
  | literal value =>
      simp only [Expr.raise]
      exact .literal value
  | equals _ _ leftTyped rightTyped =>
      simp only [Expr.raise, raiseAll]
      exact .equals leftTyped rightTyped
  | and _ _ leftTyped rightTyped =>
      simp only [Expr.raise, raiseAll]
      exact .and leftTyped rightTyped

/-- A derivation for raised columns comes from one for the columns themselves. -/
theorem typed_of_raise {before : List ScalarType}
    (typed : Typed (before ++ types) (expr.raise before.length) type) : Typed types expr type := by
  induction expr using Expr.induct generalizing type with
  | column index declared =>
      simp only [raise] at typed
      cases typed with
      | column found =>
          rw [List.getElem?_append_right (Nat.le_add_right _ _), Nat.add_sub_cancel_left] at found
          exact .column found
  | literal value =>
      simp only [raise] at typed
      cases typed with
      | literal => exact .literal value
  | call op args ih =>
      rcases args with _ | ⟨left, _ | ⟨right, _ | ⟨third, others⟩⟩⟩
      case cons.cons.nil =>
        simp only [raise, raiseAll] at typed
        cases typed with
        | equals leftTyped rightTyped =>
            exact .equals (ih left (by simp) leftTyped) (ih right (by simp) rightTyped)
        | and leftTyped rightTyped =>
            exact .and (ih left (by simp) leftTyped) (ih right (by simp) rightTyped)
      all_goals
        simp only [raise, raiseAll] at typed
        cases typed

/-- Fields behind those of the schema do not matter to an accepted expression. -/
theorem check_join_left (accepted : expr.check schema = .ok ()) (after : Schema) :
    expr.check (schema.join after) = .ok () := by
  rw [check_eq_ok_iff, Schema.types_join]
  exact ((check_eq_ok_iff expr).mp accepted).append after.types

/-- An expression is accepted when the raised one is, with as many fields in front. -/
theorem check_raise_join_iff (before schema : Schema) (expr : Expr) :
    (expr.raise before.width).check (before.join schema) = .ok () ↔ expr.check schema = .ok () := by
  rw [check_eq_ok_iff, check_eq_ok_iff, Schema.types_join, type_raise, ← Schema.length_types]
  exact ⟨typed_of_raise, fun typed => typed.raise before.types⟩

end Joins

/-- The check accepts exactly the expressions with a typing derivation, which
derives the declared type, and reports any other one as malformed for a part of
it. What is accepted over a schema is accepted with the same type when further
fields come behind, and over a schema with further fields in front exactly the
expressions with columns raised by the number of these fields are accepted. -/
theorem validate_exact (schema : Schema) (expr : Expr) :
    (∀ type, expr.validate schema = .ok () ∧ expr.type = type ↔ Typed schema.types expr type) ∧
    (∀ error, expr.validate schema = .error error →
      ∃ part cause, Within part expr ∧ Fault schema part cause ∧ error = ⟨[], .malformed cause⟩) ∧
    (∀ after type, expr.validate schema = .ok () ∧ expr.type = type →
      expr.validate (schema.join after) = .ok () ∧ Typed (schema.join after).types expr type) ∧
    (∀ before : Schema, expr.validate schema = .ok () ↔
      (expr.raise before.width).validate (before.join schema) = .ok ()) := by
  simp only [validate_eq_ok_iff, validate_eq_error_iff]
  refine ⟨?derivation, ?refusal, ?behind, ?front⟩
  case derivation =>
    intro type
    rw [check_eq_ok_iff]
    constructor
    · rintro ⟨typed, rfl⟩
      exact typed
    · intro typed
      exact ⟨typed.type_eq ▸ typed, typed.type_eq⟩
  case refusal =>
    rintro error ⟨cause, refused, rfl⟩
    obtain ⟨part, within, fault⟩ := fault_of_check refused
    exact ⟨part, cause, within, fault, rfl⟩
  case behind =>
    rintro after type ⟨accepted, rfl⟩
    have joined := check_join_left accepted after
    exact ⟨joined, (check_eq_ok_iff expr).mp joined⟩
  case front => exact fun before => (check_raise_join_iff before schema expr).symm

/-- `validate_exact` for a condition on a table that is joined with an aggregate
before it. -/
theorem validate_exact_orders :
    let condition := (Expr.column 1 .int64).equal (.literal (.int64 7))
    condition.validate Sample.orders.schema = .ok () ∧
      ((Expr.column 4 .int64).equal (.literal (.int64 7))).validate
        (Sample.customers.schema.join Sample.orders.schema) = .ok () := by
  intro condition
  have exact := validate_exact Sample.orders.schema condition
  have accepted := ((exact.1 .boolean).mpr (typed_equal (.column rfl) (.literal _))).1
  exact ⟨accepted, (exact.2.2.2 Sample.customers.schema).mp accepted⟩

end QueryPlan.Expr
