import QueryPlan.Proofs.Elimination.Template
import QueryPlan.Rule.DistinctElimination

/-!
# Sides of the join

The result of the elimination in closed form, as templates. The calls of an
aggregate fall into kinds: the plain calls make up one kind, and the distinct
calls over one argument list make up one kind each. Each kind has a side of the
join, and where a side starts in the joined row, and which column a call ends up
in, is said by counting calls.
-/

namespace QueryPlan

/-- The kind of a call: `none` for a plain one, otherwise its argument list. -/
abbrev CallKind := Option (List Nat)

namespace AggregateCall

def kind (call : AggregateCall) : CallKind := if call.distinct then some call.args else none

/-- The plain call with the same meaning over distinct rows of the columns at
`ordinals`. -/
def overSelection (ordinals : List Nat) (call : AggregateCall) : AggregateCall :=
  call.setArgs false (call.args.map fun arg => ordinals.idxOf arg)

end AggregateCall

namespace Aggregate

/-- The kinds of calls in the order of their sides. The plain side is there even
without plain calls, since it holds the groups. -/
def kinds (aggregate : Aggregate) : List CallKind :=
  none :: aggregate.argumentLists.map some

/-- The calls of one kind, in order. -/
def callsOf (aggregate : Aggregate) (kind : CallKind) : List AggregateCall :=
  aggregate.calls.filter (·.kind == kind)

/-- The argument list that all calls share, if all are distinct and share one. -/
def soleArguments? (aggregate : Aggregate) : Option (List Nat) :=
  match aggregate.callsOf none, aggregate.argumentLists with
  | [], [args] => some args
  | _, _ => none

/-- Number of columns of the side of a kind. -/
def sideWidth (aggregate : Aggregate) (kind : CallKind) : Nat :=
  aggregate.groupCount + (aggregate.callsOf kind).length

/-- Number of columns of the sides of several kinds. -/
def sidesWidth (aggregate : Aggregate) : List CallKind → Nat
  | [] => 0
  | kind :: rest => aggregate.sideWidth kind + sidesWidth aggregate rest

/-- First column of the side of a kind in the joined row. -/
def sideStart (aggregate : Aggregate) (kind : CallKind) : Nat :=
  aggregate.sidesWidth (aggregate.kinds.takeWhile (· != kind))

/-- The column of the joined row that holds the call at a position. -/
def callColumn (aggregate : Aggregate) (index : Nat) (call : AggregateCall) : Nat :=
  aggregate.sideStart call.kind + aggregate.groupCount +
    (aggregate.calls.take index).countP (·.kind == call.kind)

end Aggregate

namespace DistinctSelection

/-- The columns to select: the first `groupCount` and then those of `args`,
each at its first occurrence. -/
def ordinals (groupCount : Nat) (args : List Nat) : List Nat :=
  (List.range groupCount ++ args).eraseDups

/-- The selected columns as a projection of rows with this schema. -/
def projection (input : Schema) (ordinals : List Nat) : Operator :=
  let columns := ordinals.filterMap fun ordinal =>
    (input.field? ordinal).map fun field => (Expr.column ordinal field.type, field.name)
  .projection (columns.map (·.1)) (columns.map (·.2))

/-- `SELECT DISTINCT` of the columns at `ordinals`. -/
def template (input : PlanNode) (ordinals : List Nat) : Template :=
  .node (.aggregate ⟨ordinals.length, []⟩)
    [.node (projection input.schema ordinals) [.existing input]]

end DistinctSelection

namespace DistinctElimination

/-- The groups with the plain calls. -/
def plainSide (aggregate : Aggregate) (input : PlanNode) : Template :=
  .node (.aggregate ⟨aggregate.groupCount, aggregate.callsOf none⟩) [.existing input]

/-- The groups with the distinct calls over one argument list, made plain. -/
def distinctSide (aggregate : Aggregate) (input : PlanNode) (args : List Nat) : Template :=
  let ordinals := DistinctSelection.ordinals aggregate.groupCount args
  let calls := (aggregate.callsOf (some args)).map (·.overSelection ordinals)
  .node (.aggregate ⟨aggregate.groupCount, calls⟩) [DistinctSelection.template input ordinals]

/-- Equality of the group fields at the start of the joined row with those of
the side that starts at `start`. -/
def joinCondition (groups : List Field) (start : Nat) : Expr :=
  let equalities := groups.mapIdx fun index field =>
    (Expr.column index field.type).equal (.column (start + index) field.type)
  (Expr.conjunction equalities).getD (.literal (.boolean true))

/-- The side of an argument list joined to the sides before it. -/
def joinSide (aggregate : Aggregate) (input : PlanNode) (left : Template) (args : List Nat) :
    Template :=
  let groups := input.schema.fields.take aggregate.groupCount
  .node (.join .inner (joinCondition groups (aggregate.sideStart (some args))))
    [left, distinctSide aggregate input args]

/-- The fields of the aggregate as columns of the joined row. -/
def outputColumns (aggregate : Aggregate) (input : Schema) : List Expr :=
  ((input.fields.take aggregate.groupCount).mapIdx fun index field => .column index field.type) ++
    aggregate.calls.mapIdx fun index call =>
      .column (aggregate.callColumn index call) call.resultType

/-- All sides joined, under the projection that restores the fields. -/
def joined (aggregate : Aggregate) (input : PlanNode) (names : List String) : Template :=
  let sides := aggregate.argumentLists.foldl (joinSide aggregate input) (plainSide aggregate input)
  .node (.projection (outputColumns aggregate input.schema) names) [sides]

end DistinctElimination

end QueryPlan
