import Mathlib.Data.List.Forall2
import QueryPlan.Proofs.Elimination.Meaning
import QueryPlan.Proofs.Rows.Strict

/-!
# Well-typed plans have well-typed rows

A value has a type when it is a literal of the type or null, and a row has the
types of a schema when it has one value of each type, in order. Over a database
whose tables have rows of the declared types, a built plan with inner joins only
can be evaluated strictly: nothing is read beyond the end of a row, every
expression has a value of its type, and every row has the types of the schema.
-/

namespace QueryPlan

section Related

variable {α β : Type} {related : α → β → Prop} {lefts : List α} {first second : β}

/-- A list that is related to one member has one member. -/
theorem exists_of_forall₂_singleton (members : List.Forall₂ related lefts [first]) :
    ∃ left, related left first ∧ lefts = [left] := by
  obtain ⟨left, _, relatedFirst, none, rfl⟩ := List.forall₂_cons_right_iff.mp members
  cases none
  exact ⟨left, relatedFirst, rfl⟩

/-- A list that is related to two members has two members. -/
theorem exists_of_forall₂_pair (members : List.Forall₂ related lefts [first, second]) :
    ∃ left right, related left first ∧ related right second ∧ lefts = [left, right] := by
  obtain ⟨left, _, relatedFirst, rest, rfl⟩ := List.forall₂_cons_right_iff.mp members
  obtain ⟨right, relatedSecond, rfl⟩ := exists_of_forall₂_singleton rest
  exact ⟨left, right, relatedFirst, relatedSecond, rfl⟩

end Related

/-- Whether a value may stand in a column of a type. Null may stand anywhere. -/
def Value.HasType : Value → ScalarType → Prop
  | null, _ => True
  | literal value, type => value.type = type

/-- Whether a row has one value for each type, and each value has its type. -/
abbrev Row.HasTypes (row : Row) (types : List ScalarType) : Prop :=
  List.Forall₂ Value.HasType row types

namespace Row.HasTypes

variable {row other : Row} {types otherTypes : List ScalarType}

theorem append (left : row.HasTypes types) (right : other.HasTypes otherTypes) :
    HasTypes (row ++ other) (types ++ otherTypes) :=
  List.rel_append left right

theorem take (typed : row.HasTypes types) (count : Nat) :
    HasTypes (row.take count) (types.take count) :=
  List.forall₂_take count typed

/-- A column of a typed row can be read and has its type. -/
theorem getElem? (typed : row.HasTypes types) {index : Nat} {type : ScalarType}
    (declared : types[index]? = some type) :
    row[index]? = some (row.column index) ∧ (row.column index).HasType type := by
  rcases List.getElem?_eq_some_iff.mp declared with ⟨bound, rfl⟩
  have inside : index < row.length := typed.length_eq ▸ bound
  have found : row[index]? = some (row.column index) := by
    rw [column, List.getElem?_eq_getElem inside]
    rfl
  have value : row.column index = row[index] :=
    (Option.some.inj ((List.getElem?_eq_getElem inside).symm.trans found)).symm
  exact ⟨found, value ▸ typed.get inside bound⟩

end Row.HasTypes

namespace Expr

/-- `part` is an expression or an argument at some depth within it. -/
inductive Within (part : Expr) : Expr → Prop
  | here : Within part part
  | argument {op : ScalarOp} {args : List Expr} {arg : Expr} :
      arg ∈ args → Within part arg → Within part (.call op args)

variable {types : List ScalarType}

/-- What lies within a well-typed expression is well typed. -/
theorem Typed.within {expr part : Expr} {type : ScalarType} (typed : Typed types expr type)
    (within : Within part expr) : Typed types part part.type := by
  induction within generalizing type with
  | here =>
      rw [typed.type_eq]
      exact typed
  | argument member _ ih =>
      cases typed with
      | equals left right =>
          rcases List.mem_pair.mp member with rfl | rfl
          · exact ih left
          · exact ih right
      | and left right =>
          rcases List.mem_pair.mp member with rfl | rfl
          · exact ih left
          · exact ih right

/-- A well-typed expression can be evaluated on a typed row, to a value of its
type. -/
theorem Typed.value? {expr : Expr} {type : ScalarType} (typed : Typed types expr type) {row : Row}
    (rowTyped : row.HasTypes types) :
    expr.value? row = some (expr.value row) ∧ (expr.value row).HasType type := by
  induction typed with
  | column declared =>
      rw [value_column, Expr.value?]
      exact rowTyped.getElem? declared
  | literal value =>
      rw [Expr.value?, Expr.value]
      exact ⟨rfl, rfl⟩
  | equals _ _ left right =>
      rw [Expr.value?, Expr.value, left.1, right.1]
      exact ⟨rfl, rfl⟩
  | and _ _ left right =>
      rw [Expr.value?, Expr.value, left.1, right.1]
      exact ⟨rfl, rfl⟩

end Expr

namespace Operator

variable {operator : Operator} {inputs : List (List ScalarType)} {output : List ScalarType}

/-- The expressions of an operator are typed over the columns of all inputs. -/
theorem Typed.exprs (typed : operator.Typed inputs output) :
    ∀ expr ∈ operator.exprs, Expr.Typed inputs.flatten expr expr.type := by
  cases typed with
  | tableScan | aggregate | limit => exact fun _ member => nomatch member
  | projection _ exprsTyped =>
      intro expr member
      simpa using exprsTyped expr member
  | join _ conditionTyped =>
      intro expr member
      rw [List.mem_singleton.mp member, conditionTyped.type_eq]
      simpa using conditionTyped
  | filter predicateTyped =>
      intro expr member
      rw [List.mem_singleton.mp member, predicateTyped.type_eq]
      simpa using predicateTyped

/-- What decides which rows are kept is typed Boolean over the columns of all
inputs. -/
theorem Typed.condition (typed : operator.Typed inputs output) {condition : Expr}
    (decides : operator.condition? = some condition) :
    Expr.Typed inputs.flatten condition .boolean := by
  cases typed with
  | tableScan | aggregate | projection | limit => nomatch decides
  | join _ conditionTyped =>
      rcases Option.some.inj decides with rfl
      simpa using conditionTyped
  | filter predicateTyped =>
      rcases Option.some.inj decides with rfl
      simpa using predicateTyped

end Operator

namespace Database

/-- Whether a database has typed rows for an operator: it declares the types of
its table, it has the types of the results of its calls, and it is no join but
an inner one. -/
structure Supports (database : Database) (operator : Operator) : Prop where
  tables : ∀ table fields, operator = .tableScan table fields →
    ∀ row ∈ database.table table, row.HasTypes fields.types
  results : ∀ grouping, operator = .aggregate grouping → ∀ call ∈ grouping.calls, ∀ tuples,
    (database.aggregate call.function call.resultType tuples).HasType call.resultType
  joins : ∀ kind condition, operator = .join kind condition → kind = .inner

/-- Whether all rows have the same types. -/
def RowsTyped (rows : List Row) (types : List ScalarType) : Prop := ∀ row ∈ rows, row.HasTypes types

variable {database : Database}

theorem rowsTyped_pairs {left right : List Row} {leftTypes rightTypes : List ScalarType}
    (leftTyped : RowsTyped left leftTypes) (rightTyped : RowsTyped right rightTypes) :
    RowsTyped (rowPairs left right) (leftTypes ++ rightTypes) := by
  intro row member
  rcases List.mem_flatMap.mp member with ⟨leftRow, leftMember, paired⟩
  rcases List.mem_map.mp paired with ⟨rightRow, rightMember, rfl⟩
  exact (leftTyped leftRow leftMember).append (rightTyped rightRow rightMember)

/-- A group key has the types of the group columns. -/
theorem rowsTyped_groupKeys {rows : List Row} {types : List ScalarType}
    (typed : RowsTyped rows types) (groupCount : Nat) :
    RowsTyped (groupKeys groupCount rows) (types.take groupCount) := by
  intro key member
  rw [groupKeys] at member
  split at member
  · rename_i none
    rw [List.mem_singleton.mp member, none, List.take_zero]
    exact .nil
  · rcases List.mem_map.mp ((FirstOccurrence.eraseDups_sublist _).subset member) with
      ⟨row, present, rfl⟩
    exact (typed row present).take groupCount

theorem aggregateRows?_of_fits {grouping : Aggregate} {rows : List Row} {types : List ScalarType}
    (fits : grouping.Fits types.length) (typed : RowsTyped rows types)
    (results : ∀ call ∈ grouping.calls, ∀ tuples,
      (database.aggregate call.function call.resultType tuples).HasType call.resultType) :
    database.aggregateRows? grouping rows =
        some (database.interpretation.aggregateRows grouping rows) ∧
      RowsTyped (database.interpretation.aggregateRows grouping rows)
        (types.take grouping.groupCount ++ grouping.calls.map (·.resultType)) := by
  have width : ∀ row ∈ rows, row.length = types.length :=
    fun row member => (typed row member).length_eq
  constructor
  · apply database.aggregateRows?_eq
    · intro row member
      rw [width row member]
      exact fits.groups
    · intro call listed row member
      rw [width row member]
      exact (fits.calls call listed).bounded
  · intro row member
    rcases List.mem_map.mp member with ⟨key, present, rfl⟩
    apply (rowsTyped_groupKeys typed grouping.groupCount key present).append
    rw [Row.HasTypes, List.forall₂_map_left_iff, List.forall₂_map_right_iff, List.forall₂_same]
    intro call listed
    exact results call listed _

theorem projectionRows?_of_typed {exprs : List Expr} {rows : List Row} {types : List ScalarType}
    (exprsTyped : ∀ expr ∈ exprs, Expr.Typed types expr expr.type) (typed : RowsTyped rows types) :
    rows.mapM (fun row => exprs.mapM (·.value? row)) =
        some (rows.map fun row => exprs.map (·.value row)) ∧
      RowsTyped (rows.map fun row => exprs.map (·.value row)) (exprs.map (·.type)) := by
  constructor
  · apply mapM_eq_some_map
    intro row member
    apply mapM_eq_some_map
    intro expr listed
    exact ((exprsTyped expr listed).value? (typed row member)).1
  · intro row member
    rcases List.mem_map.mp member with ⟨source, present, rfl⟩
    rw [Row.HasTypes, List.forall₂_map_left_iff, List.forall₂_map_right_iff, List.forall₂_same]
    intro expr listed
    exact ((exprsTyped expr listed).value? (typed source present)).2

/-- A condition selects rows without changing them. -/
theorem select?_of_typed {condition : Expr} {rows : List Row} {types : List ScalarType}
    (conditionTyped : Expr.Typed types condition .boolean) (typed : RowsTyped rows types) :
    condition.select? rows = some (rows.filter condition.holds) ∧
      RowsTyped (rows.filter condition.holds) types := by
  constructor
  · apply Expr.select?_eq
    intro row member
    exact (conditionTyped.value? (typed row member)).1
  · intro row member
    exact typed row (List.mem_filter.mp member).1

/-- An operator that is typed over the types of its inputs has rows over typed
rows, and these have the output types. -/
theorem operatorRows?_of_typed {operator : Operator} {inputTypes : List (List ScalarType)}
    {output : List ScalarType} (typed : operator.Typed inputTypes output)
    (supports : database.Supports operator) {inputs : List Relation}
    (inputsTyped : List.Forall₂ (fun input types => RowsTyped input.rows types) inputs inputTypes) :
    database.operatorRows? operator (inputs.map (·.rows)) =
        some (database.interpretation.operatorRows operator inputs) ∧
      RowsTyped (database.interpretation.operatorRows operator inputs) output := by
  cases typed with
  | tableScan table fields =>
      cases inputsTyped
      exact ⟨rfl, supports.tables table fields rfl⟩
  | @aggregate grouping input fits =>
      obtain ⟨only, inputTyped, rfl⟩ := exists_of_forall₂_singleton inputsTyped
      exact aggregateRows?_of_fits fits inputTyped (supports.results grouping rfl)
  | projection _ exprsTyped =>
      obtain ⟨only, inputTyped, rfl⟩ := exists_of_forall₂_singleton inputsTyped
      exact projectionRows?_of_typed exprsTyped inputTyped
  | @join kind condition _ _ conditionTyped =>
      obtain ⟨left, right, leftTyped, rightTyped, rfl⟩ := exists_of_forall₂_pair inputsTyped
      rcases supports.joins kind condition rfl with rfl
      have selected := select?_of_typed conditionTyped (rowsTyped_pairs leftTyped rightTyped)
      rw [← innerJoin_eq] at selected
      exact selected
  | filter predicateTyped =>
      obtain ⟨only, inputTyped, rfl⟩ := exists_of_forall₂_singleton inputsTyped
      exact select?_of_typed predicateTyped inputTyped
  | limit count =>
      obtain ⟨only, inputTyped, rfl⟩ := exists_of_forall₂_singleton inputsTyped
      exact ⟨rfl, fun row member => inputTyped row (List.mem_of_mem_take member)⟩

/-- The rows on which an operator evaluates its expressions have the types of
all inputs. -/
theorem rowsTyped_scope {operator : Operator} {inputTypes : List (List ScalarType)}
    {output : List ScalarType} (typed : operator.Typed inputTypes output) {inputs : List (List Row)}
    (inputsTyped : List.Forall₂ RowsTyped inputs inputTypes) :
    RowsTyped (operator.scope inputs) inputTypes.flatten := by
  cases typed with
  | tableScan =>
      cases inputsTyped
      exact fun _ member => nomatch member
  | aggregate | projection | filter | limit =>
      obtain ⟨only, inputTyped, rfl⟩ := exists_of_forall₂_singleton inputsTyped
      rw [List.flatten_singleton]
      exact inputTyped
  | join =>
      obtain ⟨left, right, leftTyped, rightTyped, rfl⟩ := exists_of_forall₂_pair inputsTyped
      rw [List.flatten_cons, List.flatten_singleton]
      exact rowsTyped_pairs leftTyped rightTyped

/-- Whether a database has typed rows for every operator of a plan. -/
def SupportsPlan (database : Database) (plan : PlanNode) : Prop :=
  ∀ node, PlanNode.Occurs node plan → database.Supports node.operator

variable {plan : PlanNode}

theorem SupportsPlan.of_occurs {node : PlanNode} (supports : database.SupportsPlan plan)
    (occurs : PlanNode.Occurs node plan) : database.SupportsPlan node :=
  fun inner inside => supports inner (inside.trans occurs)

/-- A built plan has rows, and they have the types of its schema. -/
theorem rows?_of_built (built : plan.Built) (supports : database.SupportsPlan plan) :
    database.rows? plan = some (database.interpretation.rows plan) ∧
      RowsTyped (database.interpretation.rows plan) plan.types := by
  induction plan using PlanNode.induct with
  | node key id operator inputs schema ih =>
      have below (input : PlanNode) (member : input ∈ inputs) :=
        ih input member (built.input member) (supports.of_occurs (.input member))
      have evaluated : database.inputRows? inputs = some (inputs.map database.interpretation.rows) :=
        database.inputRows?_eq fun input member => (below input member).1
      have relations : (inputs.map database.interpretation.relation).map (·.rows) =
          inputs.map database.interpretation.rows := List.map_map
      rw [rows?_eq, Interpretation.rows_eq, evaluated, ← relations]
      apply operatorRows?_of_typed (built _ .here).typed (supports _ .here)
      rw [List.forall₂_map_left_iff, List.forall₂_map_right_iff, List.forall₂_same]
      intro input member
      exact (below input member).2

/-- Schemas are sound for evaluation. In a built plan every node has rows that
are computed without reading beyond a row. They are the rows of the total reading
of the database, and every row has one field of the right type for each field of
the schema. Every expression of the node, and every part of it, has a value of its
type on every row that the node looks at, and what decides about rows has a
Boolean value there. -/
theorem evaluation_sound (built : plan.Built) (supports : database.SupportsPlan plan)
    {node : PlanNode} (occurs : PlanNode.Occurs node plan) :
    (database.rows? node = some (database.interpretation.rows node) ∧
      ∀ row ∈ database.interpretation.rows node,
        row.length = node.schema.width ∧ row.HasTypes node.schema.types) ∧
    database.inputRows? node.inputs = some (node.inputs.map database.interpretation.rows) ∧
      ∀ row ∈ node.operator.scope (node.inputs.map database.interpretation.rows),
        (∀ expr ∈ node.operator.exprs, ∀ part, Expr.Within part expr →
          ∃ value : Value, part.value? row = some value ∧ value.HasType part.type) ∧
        ∀ condition, node.operator.condition? = some condition →
          ∃ value : Value, condition.value? row = some value ∧ value.HasType .boolean := by
  have nodeBuilt := built.of_occurs occurs
  have typed := (built node occurs).typed
  have evaluated := rows?_of_built nodeBuilt (supports.of_occurs occurs)
  have inputEvaluated (input : PlanNode) (member : input ∈ node.inputs) :=
    rows?_of_built (nodeBuilt.input member) ((supports.of_occurs occurs).of_occurs (.input member))
  have inputsTyped : List.Forall₂ RowsTyped (node.inputs.map database.interpretation.rows)
      (node.inputs.map PlanNode.types) := by
    rw [List.forall₂_map_left_iff, List.forall₂_map_right_iff, List.forall₂_same]
    exact fun input member => (inputEvaluated input member).2
  refine ⟨⟨evaluated.1, ?_⟩, ?_, ?_⟩
  · intro row member
    have rowTyped := evaluated.2 row member
    exact ⟨rowTyped.length_eq.trans (Schema.length_types node.schema), rowTyped⟩
  · exact database.inputRows?_eq fun input member => (inputEvaluated input member).1
  · intro row inScope
    have rowTyped := rowsTyped_scope typed inputsTyped row inScope
    constructor
    · intro expr listed part within
      exact ⟨_, ((typed.exprs expr listed).within within).value? rowTyped⟩
    · intro condition decides
      exact ⟨_, (typed.condition decides).value? rowTyped⟩

end Database

namespace Sample

/-- Every customer with the items that the customer ordered. -/
def customerItems : PlanNode :=
  .assemble 2 2 (.join .inner ((Expr.column 0 .utf8).equal (.column 3 .utf8))) [customers, orders]

/-- The table and the functions of `counting`. -/
def countingDatabase : Database := ⟨counting.table, counting.aggregate⟩

theorem customerItems_built : customerItems.Built := by
  apply PlanNode.built_assemble (.join .inner (Expr.typed_equal (.column rfl) (.column rfl)))
  intro input member
  rcases List.mem_pair.mp member with rfl | rfl
  · exact customers_built
  · exact customers_built.input (List.mem_singleton_self orders)

theorem countingDatabase_supports : countingDatabase.SupportsPlan customerItems := by
  have join : countingDatabase.Supports customerItems.operator := by
    refine ⟨fun _ _ same => (nomatch same), fun _ same => (nomatch same), ?_⟩
    rintro kind condition ⟨⟩
    rfl
  have aggregate : countingDatabase.Supports customers.operator := by
    refine ⟨fun _ _ same => (nomatch same), ?_, fun _ _ same => (nomatch same)⟩
    rintro grouping ⟨⟩ call member tuples
    rcases List.mem_pair.mp member with rfl | rfl <;> rfl
  have scan : countingDatabase.Supports orders.operator := by
    refine ⟨?_, fun _ same => (nomatch same), fun _ _ same => (nomatch same)⟩
    rintro table fields ⟨⟩ row member
    simp only [countingDatabase, counting, List.mem_cons, List.not_mem_nil, or_false] at member
    rcases member with rfl | rfl | rfl <;> exact .cons (by trivial) (.cons (by trivial) .nil)
  intro node occurs
  rcases PlanNode.occurs_iff.mp occurs with rfl | ⟨input, member, inside⟩
  · exact join
  · rcases List.mem_pair.mp member with rfl | rfl
    · rcases occurs_customers.mp inside with rfl | rfl
      · exact aggregate
      · exact scan
    · rw [occurs_orders.mp inside]
      exact scan

end Sample

/-- `evaluation_sound` for a join over an aggregate and a table with a null. -/
theorem Database.evaluation_sound_customerItems :
    let ann : Row := [.literal (.utf8 "Ann"), .literal (.int64 1), .literal (.int64 2),
      .literal (.utf8 "Ann"), .literal (.int64 1)]
    let bob : Row := [.literal (.utf8 "Bob"), .literal (.int64 1), .literal (.int64 1),
      .literal (.utf8 "Bob"), .null]
    (Sample.countingDatabase.rows? Sample.customerItems = some [ann, ann, bob] ∧
      ∀ row ∈ [ann, ann, bob],
        row.length = 5 ∧ row.HasTypes [.utf8, .int64, .int64, .utf8, .int64]) ∧
    ∃ inputRows, Sample.countingDatabase.inputRows? Sample.customerItems.inputs = some inputRows ∧
      ∀ row ∈ Sample.customerItems.operator.scope inputRows,
        (∀ expr ∈ Sample.customerItems.operator.exprs, ∀ part, Expr.Within part expr →
          ∃ value : Value, part.value? row = some value ∧ value.HasType part.type) ∧
        ∀ condition, Sample.customerItems.operator.condition? = some condition →
          ∃ value : Value, condition.value? row = some value ∧ value.HasType .boolean := by
  intro ann bob
  obtain ⟨⟨evaluated, typed⟩, inputsEvaluated, expressions⟩ := Database.evaluation_sound
    Sample.customerItems_built Sample.countingDatabase_supports .here
  have rows : Sample.countingDatabase.interpretation.rows Sample.customerItems =
      [ann, ann, bob] := rfl
  rw [rows] at evaluated typed
  exact ⟨⟨evaluated, typed⟩, _, inputsEvaluated, expressions⟩

end QueryPlan
