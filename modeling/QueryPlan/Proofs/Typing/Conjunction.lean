import QueryPlan.Proofs.Typing.Checking

/-!
# Conjunctions

A conjunction puts `AND` between the members of a list, from the left. It asks of
each member what `AND` asks of each of its sides: the check accepts it when all
members are accepted and Boolean, and it is true on a row when all members are
true there. The conjunction of one expression holds no `AND`. It is that
expression, which may have any type.
-/

namespace QueryPlan.Expr

/-- A further member at the end stands on the right of the conjunction of the
members before it. -/
theorem conjunction_append {earlier : List Expr} {before : Expr}
    (found : conjunction earlier = some before) (last : Expr) :
    conjunction (earlier ++ [last]) = some (before.and last) := by
  cases earlier with
  | nil => simp [conjunction] at found
  | cons first rest =>
      obtain rfl := Option.some.inj found
      rw [List.cons_append, conjunction, List.foldl_append, List.foldl_cons, List.foldl_nil]

section Acceptance

variable {schema : Schema}

/-- Two members or more are put together by `AND`, which is Boolean whatever they
are. -/
theorem type_foldl_and (first second : Expr) (rest : List Expr) :
    ((second :: rest).foldl and first).type = .boolean := by
  induction rest generalizing first second with
  | nil => rfl
  | cons third rest ih => exact ih (first.and second) third

/-- A conjunction of two members or more is accepted when all members are accepted
and Boolean. -/
theorem check_foldl_and_iff (first second : Expr) (rest : List Expr) :
    ((second :: rest).foldl and first).check schema = .ok () ↔
      ∀ expr ∈ first :: second :: rest, expr.check schema = .ok () ∧ expr.type = .boolean := by
  rw [check_eq_ok_iff, type_foldl_and, foldl_and_iff (Typed schema.types · .boolean)]
  · simp only [typed_iff]
  · exact fun _ _ => typed_and_iff

end Acceptance

section Evaluation

variable {row : Row} {left right : Expr}

/-- `AND` evaluates both of its sides, also where the left one is not true. -/
theorem value?_and :
    (left.and right).value? row = (left.value? row).bind fun leftValue =>
      (right.value? row).map fun rightValue =>
        .boolean (leftValue.isTrue && rightValue.isTrue) := by
  rw [Expr.and, binary, value?]
  cases left.value? row <;> cases right.value? row <;> rfl

theorem value_and_eq_true_iff :
    (left.and right).value row = .boolean true ↔
      left.value row = .boolean true ∧ right.value row = .boolean true := by
  have truth : ((left.and right).value row).isTrue =
      ((left.value row).isTrue && (right.value row).isTrue) := holds_and row left right
  rw [← Value.isTrue_iff, truth, Bool.and_eq_true, Value.isTrue_iff, Value.isTrue_iff]

theorem value?_and_eq_true_iff :
    (left.and right).value? row = some (.boolean true) ↔
      left.value? row = some (.boolean true) ∧ right.value? row = some (.boolean true) := by
  rw [value?_and]
  cases left.value? row with
  | none => simp
  | some leftValue =>
      cases right.value? row with
      | none => simp
      | some rightValue => simp [← Value.isTrue_iff]

theorem isSome_value?_and_iff :
    ((left.and right).value? row).isSome = true ↔
      (left.value? row).isSome = true ∧ (right.value? row).isSome = true := by
  rw [value?_and]
  cases left.value? row <;> cases right.value? row <;> simp

end Evaluation

/-- Every list but the empty one has a conjunction: the expression itself for a list
of one, otherwise `AND` between the conjunction of the members before the last one
and the last one. It is accepted over a schema when all members are accepted and,
if there are two or more, Boolean. On a row it is true when all members are true.
Strict evaluation agrees, and reads the columns of all members, even behind one
that is not true. -/
theorem conjunction_exact (exprs : List Expr) :
    (conjunction exprs = none ↔ exprs = []) ∧
    (exprs ≠ [] → ∃ condition, conjunction exprs = some condition ∧
      (∀ expr, exprs = [expr] → condition = expr) ∧
      (∀ earlier before last, exprs = earlier ++ [last] → conjunction earlier = some before →
        condition = before.and last) ∧
      (∀ schema, condition.validate schema = .ok () ↔
        (∀ expr ∈ exprs, expr.validate schema = .ok ()) ∧
        (2 ≤ exprs.length → ∀ expr ∈ exprs, expr.type = .boolean)) ∧
      (∀ row,
        (condition.value row = .boolean true ↔
          ∀ expr ∈ exprs, expr.value row = .boolean true) ∧
        (condition.value? row = some (.boolean true) ↔
          ∀ expr ∈ exprs, expr.value? row = some (.boolean true)) ∧
        ((condition.value? row).isSome = true ↔
          ∀ expr ∈ exprs, (expr.value? row).isSome = true))) := by
  cases exprs with
  | nil => exact ⟨by simp [conjunction], fun nonempty => absurd rfl nonempty⟩
  | cons first rest =>
      refine ⟨by simp [conjunction], fun _ =>
        ⟨rest.foldl and first, rfl, ?sole, ?last, ?accepted, ?valued⟩⟩
      case sole =>
        intro expr single
        obtain ⟨rfl, rfl⟩ := List.cons.inj single
        rfl
      case last =>
        intro earlier before last split found
        have whole := conjunction_append found last
        rw [← split] at whole
        exact Option.some.inj whole
      case accepted =>
        intro schema
        simp only [validate_eq_ok_iff]
        cases rest with
        -- One expression is its own conjunction, and its type does not matter.
        | nil => simp
        | cons second rest =>
            have several : 2 ≤ (first :: second :: rest).length := by simp
            rw [check_foldl_and_iff, forall₂_and, forall_prop_of_true several]
      case valued =>
        intro row
        refine ⟨?_, ?_, ?_⟩
        · exact foldl_and_iff (·.value row = .boolean true)
            (fun _ _ => value_and_eq_true_iff) first rest
        · exact foldl_and_iff (·.value? row = some (.boolean true))
            (fun _ _ => value?_and_eq_true_iff) first rest
        · exact foldl_and_iff (fun expr => (expr.value? row).isSome = true)
            (fun _ _ => isSome_value?_and_iff) first rest

/-- `conjunction_exact` on a table: three conditions are true of an order, whereas a
column that is not Boolean may only stand alone. -/
theorem conjunction_exact_orders :
    let conditions := [(Expr.column 1 .int64).equal (.literal (.int64 7)),
      (Expr.column 0 .utf8).equal (.literal (.utf8 "ada")), .literal (.boolean true)]
    let order : Row := [.literal (.utf8 "ada"), .literal (.int64 7)]
    (∃ condition, conjunction conditions = some condition ∧
      condition.validate Sample.orders.schema = .ok () ∧
      condition.value? order = some (.boolean true)) ∧
    (∃ refused, conjunction [.column 1 .int64, .literal (.boolean true)] = some refused ∧
      refused.validate Sample.orders.schema ≠ .ok ()) := by
  intro conditions order
  constructor
  · obtain ⟨condition, found, _, _, accepted, valued⟩ :=
      (conjunction_exact conditions).2 (List.cons_ne_nil _ _)
    refine ⟨condition, found, (accepted _).mpr ⟨?_, fun _ => ?_⟩, (valued order).2.1.mpr ?_⟩
    all_goals simp only [conditions, List.forall_mem_cons]
    · exact ⟨rfl, rfl, rfl, List.forall_mem_nil _⟩
    · exact ⟨rfl, rfl, rfl, List.forall_mem_nil _⟩
    · exact ⟨rfl, rfl, rfl, List.forall_mem_nil _⟩
  · obtain ⟨refused, found, _, _, accepted, _⟩ :=
      (conjunction_exact [.column 1 .int64, .literal (.boolean true)]).2 (List.cons_ne_nil _ _)
    refine ⟨refused, found, fun allowed => ?_⟩
    have boolean := ((accepted _).mp allowed).2 (by simp) (.column 1 .int64) (by simp)
    exact absurd boolean (by decide)

end QueryPlan.Expr
