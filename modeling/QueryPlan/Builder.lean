import QueryPlan.Node.Basic

/-!
# Building plans step by step

A builder holds the plan built so far and the id of its next node. Every step
puts one node on top of the plan. A step that is refused leaves the plan as it
was, and a node that fails its check still uses up its id.
-/

namespace QueryPlan

/-- The plan built so far and the next id. -/
structure PlanBuilder where
  root? : Option PlanNode
  nextId : Nat

namespace PlanBuilder

/-- A builder without a plan, which numbers its nodes from zero. -/
def empty : PlanBuilder := ⟨none, 0⟩

/-- A node to put on top of the plan. -/
inductive Step where
  | scan (table : String) (fields : Schema)
  | filter (predicate : Expr)
  | projection (exprs : List Expr) (names : List String)
  | aggregate (groupCount : Nat) (calls : List AggregateCall)
  | limit (count : Nat)
  /-- Joins the plan, on the left, with another one. -/
  | join (kind : JoinKind) (condition : Expr) (right : PlanNode)

namespace Step

/-- The operator of the node. -/
def operator : Step → Operator
  | scan table fields => .tableScan table fields
  | filter predicate => .filter predicate
  | projection exprs names => .projection exprs names
  | aggregate groupCount calls => .aggregate ⟨groupCount, calls⟩
  | limit count => .limit count
  | join kind condition _ => .join kind condition

/-- The word for a step in the message that it has no plan to stand on. -/
def name : Step → String
  | scan .. => "TableScan"
  | filter .. => "Filter"
  | projection .. => "Projection"
  | aggregate .. => "Aggregate"
  | limit .. => "Limit"
  | join .. => "Join"

/-- The inputs of the node over the plan built so far. Only a scan needs none. -/
def inputs (step : Step) (root? : Option PlanNode) : Except PlanError (List PlanNode) :=
  match step, root? with
  | scan .., _ => .ok []
  | join _ _ right, some root => .ok [root, right]
  | _, some root => .ok [root]
  | step, none => .error (.malformed (.missingInput step.name))

end Step

/-- Takes a step; the new node gets the identity `key`. -/
def add (builder : PlanBuilder) (key : Nat) (step : Step) : Except PlanError Unit × PlanBuilder :=
  match step.inputs builder.root? with
  | .error error => (.error error, builder)
  | .ok inputs =>
    match PlanNode.build key builder.nextId step.operator inputs with
    | .error error => (.error error, { builder with nextId := builder.nextId + 1 })
    | .ok node => (.ok (), ⟨some node, builder.nextId + 1⟩)

/-- Takes the plan out of the builder, which goes on with its next id. -/
def take (builder : PlanBuilder) : Except PlanError PlanNode × PlanBuilder :=
  match builder.root? with
  | some root => (.ok root, { builder with root? := none })
  | none => (.error (.malformed .emptyPlan), builder)

end PlanBuilder

end QueryPlan
