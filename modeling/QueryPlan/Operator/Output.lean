import QueryPlan.Expr.Typing

/-!
# Output schemas

`Operator.outputSchema` checks an operator against the schemas of its inputs
and gives the fields of the rows that it produces.
-/

namespace QueryPlan

namespace AggregateCall

/-- Only a plain count may have no arguments, and arguments are columns of the
input. -/
def check (call : AggregateCall) (input : Schema) : Except Malformed Unit :=
  if call.distinct ∧ call.args = [] then .error (.distinctWithoutArguments call)
  else if call.args = [] ∧ call.function ≠ .count then .error (.callWithoutArguments call)
  else match call.args.find? (input.width ≤ ·) with
    | some arg => .error (.callArgumentOutOfRange arg call input.width)
    | none => .ok ()

/-- The field that holds the results of a call. -/
def field (call : AggregateCall) : Field := ⟨call.text, call.resultType⟩

end AggregateCall

namespace Aggregate

/-- The group fields of the input followed by one field per call. -/
def outputSchema (aggregate : Aggregate) (input : Schema) : Except Malformed Schema := do
  if input.width < aggregate.groupCount then
    .error (.groupCount aggregate.groupCount input.width)
  aggregate.calls.forM (·.check input)
  .ok ⟨input.fields.take aggregate.groupCount ++ aggregate.calls.map AggregateCall.field⟩

end Aggregate

namespace Operator

/-- One named field per expression. Only the expressions look at the input. -/
def projectionSchema (exprs : List Expr) (names : List String) (inputs : List Schema) :
    Except Malformed Schema := do
  if exprs.length ≠ names.length then
    .error (.projectionNames exprs.length names.length)
  exprs.forM fun expr =>
    match inputs with
    | input :: _ => expr.check input
    | [] => .error (.arity (.projection exprs names) 0)
  .ok ⟨List.zipWith (fun expr name => ⟨name, expr.type⟩) exprs names⟩

/-- The fields of the output over inputs with these schemas. Inputs beyond
`arity` are not looked at, and a missing one is an error once it is needed. -/
def outputSchema : Operator → List Schema → Except Malformed Schema
  | .tableScan _ fields, _ => .ok fields
  | .aggregate grouping, input :: _ => grouping.outputSchema input
  | .projection exprs names, inputs => projectionSchema exprs names inputs
  | .filter predicate, input :: _ => do
    predicate.checkCondition input .filterNotBoolean
    .ok input
  | .limit _, input :: _ => .ok input
  | .join _ condition, left :: right :: _ => do
    condition.checkCondition (left.join right) .joinNotBoolean
    .ok (left.join right)
  | operator, inputs => .error (.arity operator inputs.length)

/-- The fields of the output for a caller that is bound to give enough inputs.
The first input that is not there would stand right after the others. -/
def outputSchemaUnguarded (operator : Operator) (inputs : List Schema) : Except Failure Schema :=
  match operator.outputSchema inputs with
  | .ok schema => .ok schema
  | .error (.arity _ count) => .error (.violation (.indexOutOfRange count count))
  | .error cause => .error (.error (.malformed cause))

end Operator

end QueryPlan
