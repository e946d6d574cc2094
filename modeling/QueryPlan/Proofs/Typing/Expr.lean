import QueryPlan.Expr.Typing

/-!
# Types of expressions

`Expr.Typed` derives the type of an expression from the types of the columns.
The checker accepts an expression exactly when there is such a derivation, so
acceptance never depends on the names of the fields.
-/

namespace QueryPlan

/-- A result that is followed by another one is a success when both are. -/
theorem bind_unit_eq_ok {ε α : Type} {first : Except ε Unit} {second : Except ε α}
    {value : α} :
    (do first; second) = .ok value ↔ first = .ok () ∧ second = .ok value := by
  cases first with
  | error error => simp [Bind.bind, Except.bind]
  | ok _ => simp [Bind.bind, Except.bind]

namespace Schema

/-- The type of a field is found at the same position as the field. -/
theorem map_type_field? (schema : Schema) (index : Nat) :
    (schema.field? index).map (·.type) = schema.types[index]? := by
  simp [field?, types]

theorem types_eq_some_iff {schema : Schema} {index : Nat} {type : ScalarType} :
    schema.types[index]? = some type ↔
      ∃ field, schema.field? index = some field ∧ field.type = type := by
  rw [← map_type_field?, Option.map_eq_some_iff]

end Schema

namespace Expr

/-- The typing derivations over rows with columns of these types. -/
inductive Typed (types : List ScalarType) : Expr → ScalarType → Prop
  | column {index : Nat} {type : ScalarType} :
      types[index]? = some type → Typed types (.column index type) type
  | literal (value : Literal) : Typed types (.literal value) value.type
  | equals {left right : Expr} {type : ScalarType} :
      Typed types left type → Typed types right type →
      Typed types (.call .equals [left, right]) .boolean
  | and {left right : Expr} :
      Typed types left .boolean → Typed types right .boolean →
      Typed types (.call .and [left, right]) .boolean

variable {types : List ScalarType} {schema : Schema}

/-- A derivation can only give the declared type. -/
theorem Typed.type_eq {expr : Expr} {type : ScalarType} (typed : Typed types expr type) :
    expr.type = type := by
  cases typed <;> rfl

theorem typed_equal {left right : Expr} {type : ScalarType}
    (leftTyped : Typed types left type) (rightTyped : Typed types right type) :
    Typed types (left.equal right) .boolean :=
  .equals leftTyped rightTyped

/-- `AND` is well typed when both of its sides are Boolean. -/
theorem typed_and_iff {left right : Expr} :
    Typed types (left.and right) .boolean ↔
      Typed types left .boolean ∧ Typed types right .boolean := by
  constructor
  · intro typed
    cases typed with
    | and leftTyped rightTyped => exact ⟨leftTyped, rightTyped⟩
  · intro typed
    exact .and typed.1 typed.2

/-- The conjunction of Boolean expressions, or true for the empty list, is
Boolean. -/
theorem typed_conjunction {conditions : List Expr}
    (typed : ∀ condition ∈ conditions, Typed types condition .boolean) :
    Typed types ((conjunction conditions).getD (.literal (.boolean true))) .boolean := by
  cases conditions with
  | nil => exact .literal (.boolean true)
  | cons first rest =>
      rw [conjunction, Option.getD_some]
      exact (foldl_and_iff (Typed types · .boolean) (fun _ _ => typed_and_iff) first rest).mpr typed

theorem check_column_iff {index : Nat} {type : ScalarType} :
    (Expr.column index type).check schema = .ok () ↔ schema.types[index]? = some type := by
  rw [check, Schema.types_eq_some_iff]
  cases found : schema.field? index with
  | none => simp
  | some field => by_cases equal : field.type = type <;> simp [equal]

theorem check_binary_iff {op : ScalarOp} {left right : Expr} :
    (Expr.call op [left, right]).check schema = .ok () ↔
      left.check schema = .ok () ∧ right.check schema = .ok () ∧
        op.accepts left.type right.type = true := by
  rw [check, bind_unit_eq_ok, bind_unit_eq_ok]
  cases op.accepts left.type right.type <;> simp

/-- The checker accepts the expressions that have a derivation. -/
theorem check_eq_ok_iff (expr : Expr) :
    expr.check schema = .ok () ↔ Typed schema.types expr expr.type := by
  induction expr using Expr.induct with
  | column index type =>
      rw [check_column_iff]
      constructor
      · exact .column
      · intro typed
        cases typed with
        | column found => exact found
  | literal value =>
      constructor
      · intro _
        exact .literal value
      · intro _
        rw [check]
  | call op args ih =>
      constructor
      · intro accepted
        match args, accepted, ih with
        | [left, right], accepted, ih =>
            rw [check_binary_iff] at accepted
            rcases accepted with ⟨leftAccepted, rightAccepted, fitting⟩
            have leftTyped := (ih left (by simp)).mp leftAccepted
            have rightTyped := (ih right (by simp)).mp rightAccepted
            cases op with
            | equals =>
                have same : left.type = right.type := by simpa [ScalarOp.accepts] using fitting
                exact .equals leftTyped (same ▸ rightTyped)
            | and =>
                have both : left.type = .boolean ∧ right.type = .boolean := by
                  simpa [ScalarOp.accepts] using fitting
                exact .and (both.1 ▸ leftTyped) (both.2 ▸ rightTyped)
        | [], accepted, _ => simp [check] at accepted
        | [_], accepted, _ => simp [check] at accepted
        | _ :: _ :: _ :: _, accepted, _ => simp [check] at accepted
      · intro typed
        cases typed with
        | equals leftTyped rightTyped =>
            rw [check_binary_iff]
            refine ⟨(ih _ (by simp)).mpr ?_, (ih _ (by simp)).mpr ?_, ?_⟩
            · rw [leftTyped.type_eq]
              exact leftTyped
            · rw [rightTyped.type_eq]
              exact rightTyped
            · simp [ScalarOp.accepts, leftTyped.type_eq, rightTyped.type_eq]
        | and leftTyped rightTyped =>
            rw [check_binary_iff]
            refine ⟨(ih _ (by simp)).mpr ?_, (ih _ (by simp)).mpr ?_, ?_⟩
            · rw [leftTyped.type_eq]
              exact leftTyped
            · rw [rightTyped.type_eq]
              exact rightTyped
            · simp [ScalarOp.accepts, leftTyped.type_eq, rightTyped.type_eq]

/-- The expressions with a derivation of some type are the accepted ones that are
declared to have it. -/
theorem typed_iff {expr : Expr} {type : ScalarType} :
    Typed schema.types expr type ↔ expr.check schema = .ok () ∧ expr.type = type := by
  rw [check_eq_ok_iff]
  constructor
  · intro typed
    have declared := typed.type_eq
    exact ⟨declared ▸ typed, declared⟩
  · rintro ⟨typed, rfl⟩
    exact typed

/-- A condition is accepted when it is derived to be Boolean. -/
theorem checkCondition_eq_ok_iff {notBoolean : Expr → Malformed} (condition : Expr) :
    condition.checkCondition schema notBoolean = .ok () ↔
      Typed schema.types condition .boolean := by
  rw [checkCondition, bind_unit_eq_ok, typed_iff]
  by_cases isBoolean : condition.type = .boolean <;> simp [isBoolean]

end Expr

end QueryPlan
