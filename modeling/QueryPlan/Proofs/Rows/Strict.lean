import QueryPlan.Proofs.Rows.Evaluation

/-!
# Strict evaluation

`Interpretation.rows` is total: a position beyond the end of a row reads as
null, and a call with a wrong number of arguments has the value null. Strict
evaluation gives up instead. It evaluates a plan over a database row by row and
has a result only when every position that is read, by an expression, as a group
column or as an argument of an aggregate call, is a position of its row.
-/

namespace QueryPlan

namespace Row

/-- The values at several positions, if the row has all of them. -/
def columns? (row : Row) (indices : List Nat) : Option Row := indices.mapM (row[·]?)

end Row

namespace Expr

/-- The value of an expression on a row that has every column it reads. Both
arguments of a call are evaluated. -/
def value? (row : Row) : Expr → Option Value
  | .column index _ => row[index]?
  | .literal value => some (.literal value)
  | .call op [left, right] => do
    let leftValue ← left.value? row
    let rightValue ← right.value? row
    return op.apply leftValue rightValue
  | .call .. => none

/-- Whether a condition holds on a row, if it has a value there. -/
def holds? (condition : Expr) (row : Row) : Option Bool := (condition.value? row).map (·.isTrue)

/-- The rows on which a condition holds, if it has a value on all of them. -/
def select? (condition : Expr) (rows : List Row) : Option (List Row) :=
  rows.filterMapM fun row => do
    return if ← condition.holds? row then some row else none

end Expr

/-- The rows of two inputs put together, in the order of the left rows and then
of the right rows. -/
def rowPairs (left right : List Row) : List Row := left.flatMap fun row => right.map (row ++ ·)

namespace Operator

/-- The expressions that an operator evaluates on rows. -/
def exprs : Operator → List Expr
  | projection exprs _ => exprs
  | join _ condition => [condition]
  | filter predicate => [predicate]
  | _ => []

/-- The expression that decides which rows an operator keeps. -/
def condition? : Operator → Option Expr
  | join _ condition => some condition
  | filter predicate => some predicate
  | _ => none

/-- The rows on which an operator evaluates its expressions. -/
def scope : Operator → List (List Row) → List Row
  | join .., [left, right] => rowPairs left right
  | _, [input] => input
  | _, _ => []

end Operator

/-- The rows of every table, by its name, and the aggregate functions, each for
every type of result. -/
structure Database where
  table : String → List Row
  aggregate : AggregateFunction → ScalarType → List Row → Value

namespace Database

variable (database : Database)

/-- The total reading of a database: filters keep the rows on which their
predicate holds, limits the first rows. Only inner joins have rows. -/
def interpretation : Interpretation where
  table := database.table
  aggregate := database.aggregate
  filter predicate input := input.rows.filter predicate.holds
  limit count input := input.rows.take count
  outerJoin _ _ _ _ := []

/-- The result of a call on a group of rows that have all of its arguments. -/
def callValue? (call : AggregateCall) (group : List Row) : Option Value := do
  let tuples ← group.mapM (·.columns? call.args)
  return database.aggregate call.function call.resultType
    (if call.distinct then tuples.eraseDups else tuples)

/-- One row per group of rows that have all group columns and all arguments. -/
def aggregateRows? (aggregate : Aggregate) (rows : List Row) : Option (List Row) := do
  let keys ← rows.mapM (·.columns? (List.range aggregate.groupCount))
  let groups := if aggregate.groupCount = 0 then [[]] else keys.eraseDups
  groups.mapM fun key => do
    let results ← aggregate.calls.mapM fun call =>
      database.callValue? call (groupOf aggregate.groupCount rows key)
    return key ++ results

/-- The rows that an operator makes of the rows of its inputs. -/
def operatorRows? : Operator → List (List Row) → Option (List Row)
  | .tableScan table _, [] => some (database.table table)
  | .aggregate grouping, [input] => database.aggregateRows? grouping input
  | .projection exprs _, [input] => input.mapM fun row => exprs.mapM (·.value? row)
  | .join .inner condition, [left, right] => condition.select? (rowPairs left right)
  | .filter predicate, [input] => predicate.select? input
  | .limit count, [input] => some (input.take count)
  | _, _ => none

mutual
/-- The rows of a plan, every input evaluated before the operator above it. -/
def rows? : PlanNode → Option (List Row)
  | ⟨_, _, operator, inputs, _⟩ => do database.operatorRows? operator (← inputRows? inputs)

/-- The rows of several plans. -/
def inputRows? : List PlanNode → Option (List (List Row))
  | [] => some []
  | node :: rest => do
    let first ← rows? node
    let others ← inputRows? rest
    return first :: others
end

end Database

section Reading

/-- A step that succeeds on every member succeeds on the list. -/
theorem mapM_eq_some_map {α β : Type} {step : α → Option β} {image : α → β} {members : List α}
    (succeeds : ∀ member ∈ members, step member = some (image member)) :
    members.mapM step = some (members.map image) := by
  induction members with
  | nil => rfl
  | cons first rest ih =>
      rw [List.mapM_cons, succeeds first List.mem_cons_self,
        ih fun member later => succeeds member (List.mem_cons_of_mem _ later)]
      rfl

theorem Row.columns?_eq {row : Row} {indices : List Nat}
    (bounded : ∀ index ∈ indices, index < row.length) :
    row.columns? indices = some (row.columns indices) := by
  apply mapM_eq_some_map
  intro index member
  rw [Row.column, List.getElem?_eq_getElem (bounded index member)]
  rfl

/-- A condition with a value on every row selects the rows on which it holds. -/
theorem Expr.select?_eq {condition : Expr} {rows : List Row}
    (valued : ∀ row ∈ rows, condition.value? row = some (condition.value row)) :
    condition.select? rows = some (rows.filter condition.holds) := by
  induction rows with
  | nil => rfl
  | cons row rest ih =>
      have later := ih fun other member => valued other (List.mem_cons_of_mem _ member)
      have here : condition.holds? row = some (condition.holds row) := by
        rw [Expr.holds?, valued row List.mem_cons_self]
        rfl
      rw [Expr.select?] at later ⊢
      rw [List.filterMapM_cons, later, here, List.filter_cons]
      cases condition.holds row <;> rfl

/-- The rows of an inner join are the pairs on which the condition holds. -/
theorem innerJoin_eq (condition : Expr) (left right : List Row) :
    innerJoin condition left right = (rowPairs left right).filter condition.holds := by
  rw [innerJoin, rowPairs, List.filter_flatMap]

namespace Database

variable (database : Database)

theorem callValue?_eq {call : AggregateCall} {group : List Row}
    (bounded : ∀ row ∈ group, ∀ arg ∈ call.args, arg < row.length) :
    database.callValue? call group = some (database.interpretation.callValue call group) := by
  rw [callValue?, mapM_eq_some_map fun row member => Row.columns?_eq (bounded row member)]
  rfl

/-- An aggregate over rows that have its group columns and arguments. -/
theorem aggregateRows?_eq {aggregate : Aggregate} {rows : List Row}
    (groups : ∀ row ∈ rows, aggregate.groupCount ≤ row.length)
    (bounded : ∀ call ∈ aggregate.calls, ∀ row ∈ rows, ∀ arg ∈ call.args, arg < row.length) :
    database.aggregateRows? aggregate rows =
      some (database.interpretation.aggregateRows aggregate rows) := by
  have keys : rows.mapM (·.columns? (List.range aggregate.groupCount)) =
      some (rows.map (List.take aggregate.groupCount)) := by
    apply mapM_eq_some_map
    intro row member
    rw [Row.columns?_eq, Row.columns_range (groups row member)]
    intro index inside
    exact Nat.lt_of_lt_of_le (List.mem_range.mp inside) (groups row member)
  have results (key : Row) : (aggregate.calls.mapM fun call =>
        database.callValue? call (groupOf aggregate.groupCount rows key)) =
      some (aggregate.calls.map fun call =>
        database.interpretation.callValue call (groupOf aggregate.groupCount rows key)) := by
    apply mapM_eq_some_map
    intro call member
    apply database.callValue?_eq
    intro row grouped
    exact bounded call member row (List.mem_filter.mp grouped).1
  rw [aggregateRows?, keys]
  apply mapM_eq_some_map
  intro key _
  rw [results]
  rfl

theorem rows?_eq (node : PlanNode) :
    database.rows? node =
      (database.inputRows? node.inputs).bind (database.operatorRows? node.operator) := by
  cases node
  rw [rows?]
  rfl

/-- Inputs that all have rows are evaluated to these rows. -/
theorem inputRows?_eq {nodes : List PlanNode} {rows : PlanNode → List Row}
    (evaluated : ∀ node ∈ nodes, database.rows? node = some (rows node)) :
    database.inputRows? nodes = some (nodes.map rows) := by
  induction nodes with
  | nil => rfl
  | cons node rest ih =>
      rw [inputRows?, evaluated node List.mem_cons_self,
        ih fun other member => evaluated other (List.mem_cons_of_mem _ member)]
      rfl

end Database

end Reading

end QueryPlan
