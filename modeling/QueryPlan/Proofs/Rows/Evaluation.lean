import QueryPlan.Node.Basic
import QueryPlan.Proofs.Rows.FirstOccurrence
import QueryPlan.Proofs.Rows.Value

/-!
# Rows of a plan

The meaning of a plan is the list of rows that it produces. Aggregates,
projections and inner joins have one fixed meaning. The contents of tables, the
aggregate functions, and what filters, limits and the other joins do with their
inputs are left to an `Interpretation`.
-/

namespace QueryPlan

/-- The rows of an input with the number of their columns. -/
structure Relation where
  width : Nat
  rows : List Row

/-- Whether every row has the number of columns of the relation. -/
def Relation.Uniform (relation : Relation) : Prop :=
  ∀ row ∈ relation.rows, row.length = relation.width

namespace AggregateCall

/-- The argument tuples that a call sees of a group, in the order of the rows.
A distinct call sees each tuple once, where it first occurs. -/
def tuples (call : AggregateCall) (group : List Row) : List Row :=
  let tuples := group.map fun row => row.columns call.args
  if call.distinct then tuples.eraseDups else tuples

end AggregateCall

/-- The group keys of some rows, in the order in which they first occur. Without
group columns all rows, also none at all, make up one group. -/
def groupKeys (groupCount : Nat) (rows : List Row) : List Row :=
  if groupCount = 0 then [[]] else (rows.map (List.take groupCount)).eraseDups

/-- The rows that have a group key, in order. -/
def groupOf (groupCount : Nat) (rows : List Row) (key : Row) : List Row :=
  rows.filter fun row => key == row.take groupCount

/-- The pairs of rows on which a condition holds, each put together to one row,
in the order of the left rows and then of the right rows. -/
def innerJoin (condition : Expr) (left right : List Row) : List Row :=
  left.flatMap fun leftRow => (right.map (leftRow ++ ·)).filter condition.holds

/-- What a plan leaves open: tables, functions, and the operators that plans are
only transparent to. -/
structure Interpretation where
  /-- The rows of a table, by its name. -/
  table : String → List Row
  /-- The value of an aggregate function of some result type on argument tuples. -/
  aggregate : AggregateFunction → ScalarType → List Row → Value
  filter : Expr → Relation → List Row
  limit : Nat → Relation → List Row
  /-- The joins that are not inner joins. -/
  outerJoin : JoinKind → Expr → Relation → Relation → List Row

namespace Interpretation

variable (interpretation : Interpretation)

/-- The result of a call on a group of rows. -/
def callValue (call : AggregateCall) (group : List Row) : Value :=
  interpretation.aggregate call.function call.resultType (call.tuples group)

/-- One row per group: its key and the results of the calls on its rows. -/
def aggregateRows (aggregate : Aggregate) (rows : List Row) : List Row :=
  (groupKeys aggregate.groupCount rows).map fun key =>
    key ++ aggregate.calls.map fun call =>
      interpretation.callValue call (groupOf aggregate.groupCount rows key)

/-- The rows that an operator makes of its inputs. -/
def operatorRows : Operator → List Relation → List Row
  | .tableScan table _, _ => interpretation.table table
  | .aggregate grouping, [input] => interpretation.aggregateRows grouping input.rows
  | .projection exprs _, [input] => input.rows.map fun row => exprs.map (·.value row)
  | .join .inner condition, [left, right] => innerJoin condition left.rows right.rows
  | .join kind condition, [left, right] => interpretation.outerJoin kind condition left right
  | .filter predicate, [input] => interpretation.filter predicate input
  | .limit count, [input] => interpretation.limit count input
  | _, _ => []

mutual
/-- The rows that a plan produces. -/
def rows : PlanNode → List Row
  | ⟨_, _, operator, inputs, _⟩ => interpretation.operatorRows operator (relations inputs)

/-- The rows of several plans with the widths of their schemas. -/
def relations : List PlanNode → List Relation
  | [] => []
  | node :: rest => ⟨node.schema.width, rows node⟩ :: relations rest
end

/-- The rows of a plan with the width of its schema. -/
def relation (node : PlanNode) : Relation := ⟨node.schema.width, interpretation.rows node⟩

@[simp] theorem relations_eq_map (nodes : List PlanNode) :
    interpretation.relations nodes = nodes.map interpretation.relation := by
  induction nodes with
  | nil => rfl
  | cons node rest ih => simp [relations, relation, ih]

theorem rows_eq (node : PlanNode) :
    interpretation.rows node =
      interpretation.operatorRows node.operator (node.inputs.map interpretation.relation) := by
  cases node
  simp [rows]

/-- Filters and limits keep the width of their input, and joins give rows as
wide as both inputs together. -/
structure RespectsWidths : Prop where
  filter : ∀ predicate input, Relation.Uniform input →
    ∀ row ∈ interpretation.filter predicate input, row.length = input.width
  limit : ∀ count input, Relation.Uniform input →
    ∀ row ∈ interpretation.limit count input, row.length = input.width
  outerJoin : ∀ kind condition left right, Relation.Uniform left → Relation.Uniform right →
    ∀ row ∈ interpretation.outerJoin kind condition left right,
      row.length = left.width + right.width

end Interpretation

end QueryPlan
