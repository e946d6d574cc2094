import QueryPlan.Rule.Basic
import QueryPlan.Rule.DistinctSelection

/-!
# Eliminating distinct aggregate calls

An aggregate with distinct calls becomes a join of aggregates without any. One
side of the join holds the group fields and the plain calls, and there is one
further side for each argument list of the distinct calls, in the order in which
the lists first occur:

* the side of the plain calls aggregates the input itself;
* the side of an argument list aggregates the distinct rows of the group fields
  and the arguments, with its calls made plain.

Each further side is joined to the earlier ones by equality of the group
fields, and a projection puts the columns back into their order. For this the
rule keeps a table with one slot per field of the aggregate, and fills a slot
when it places the column of this field. When there is one argument list and no
plain call, the side of that list is enough.
-/

namespace QueryPlan

/-- The argument lists of the distinct calls, in order of first occurrence. -/
def Aggregate.argumentLists (aggregate : Aggregate) : List (List Nat) :=
  ((aggregate.calls.filter (·.distinct)).map (·.args)).eraseDups

namespace DistinctElimination

def name : String := "RemoveDistinctAggregateRule"

/-- The columns of the joined row that hold the fields of the aggregate, as far
as they are placed. -/
abbrev Slots := List (Option Expr)

namespace Slots

/-- Puts a column into a slot. -/
def put (slots : Slots) (position : Nat) (column : Expr) : RuleStep Slots :=
  if position < slots.length then
    return slots.set position (some column)
  else
    Step.violate (.indexOutOfRange slots.length position)

/-- Puts a column into a slot that has to be empty. -/
def fill (slots : Slots) (position : Nat) (column : Expr) : RuleStep Slots := do
  if (← Step.index slots position).isSome then
    Step.violate .slotTaken
  else
    slots.put position column

/-- Puts a group field into its own place. -/
def putGroup (slots : Slots) : Field × Nat → RuleStep Slots
  | (field, position) => slots.put position (.column position field.type)

/-- The slots for some fields, with the group fields placed. -/
def ofGroups (fields : List Field) (groupCount : Nat) : RuleStep Slots :=
  if fields.length < groupCount then
    Step.violate (.sliceOutOfRange fields.length groupCount)
  else
    (fields.take groupCount).zipIdx.foldlM putGroup (List.replicate fields.length none)

end Slots

/-- The place of an argument of a call among the columns at `ordinals`. -/
def placeOf (ordinals : List Nat) (call : AggregateCall) (arg : Nat) : RuleStep Nat :=
  match ordinals.idxOf? arg with
  | some place => return place
  | none => Step.fail (.invalidRule (.argumentNotSelected arg call))

/-- The plain call with the same meaning over the distinct rows of the columns at
`ordinals`. -/
def makePlain (ordinals : List Nat) (call : AggregateCall) : RuleStep AggregateCall := do
  return call.setArgs false (← call.args.mapM (placeOf ordinals call))

/-- The calls of one side so far, and the slots. -/
structure Side where
  calls : List AggregateCall
  slots : Slots

/-- Takes a call over into the side of the plain calls, if it is one of them. -/
def Side.addPlain (groupCount : Nat) (side : Side) : AggregateCall × Nat → RuleStep Side
  | (call, position) => do
    if call.distinct then
      return side
    else
      let column := .column (groupCount + side.calls.length) call.resultType
      return ⟨side.calls ++ [call], ← side.slots.put (groupCount + position) column⟩

/-- Takes a call over into the side of an argument list, if it is a distinct call
over exactly this list. The side stands behind `leftWidth` other columns. -/
def Side.addDistinct (groupCount leftWidth : Nat) (args ordinals : List Nat) (side : Side) :
    AggregateCall × Nat → RuleStep Side
  | (call, position) => do
    if !call.distinct || call.args != args then
      return side
    else
      let plain ← makePlain ordinals call
      let column := .column (leftWidth + groupCount + side.calls.length) plain.resultType
      return ⟨side.calls ++ [plain], ← side.slots.fill (groupCount + position) column⟩

/-- Equality of a group field of both inputs of a join, as columns of the joined
row. -/
def matchGroup (left right : Schema) (ordinals : List Nat) (index : Nat) : RuleStep Expr := do
  match ordinals.idxOf? index with
  | some place =>
    let leftField ← Step.index left.fields index
    let rightField ← Step.index right.fields place
    return (Expr.column index leftField.type).equal (.column (left.width + place) rightField.type)
  | none => Step.violate .columnNotFound

/-- Equality of all group fields of both inputs of a join. Without group fields
both inputs are single rows, and all rows match. -/
def matchGroups (left right : Schema) (groupCount : Nat) (ordinals : List Nat) : RuleStep Expr := do
  let equalities ← (List.range groupCount).mapM (matchGroup left right ordinals)
  return (Expr.conjunction equalities).getD (.literal (.boolean true))

/-- Joins the side of an argument list to the sides before it. -/
def joinDistinct (aggregate : Aggregate) (input : PlanNode) :
    PlanNode × Slots → List Nat → RuleStep (PlanNode × Slots)
  | (left, slots), args => do
    let leftWidth := left.schema.width
    let (distinct, ordinals) ← Firing.selectDistinct input aggregate.groupCount args
    let side ← aggregate.calls.zipIdx.foldlM
      (Side.addDistinct aggregate.groupCount leftWidth args ordinals) ⟨[], slots⟩
    let right ← Firing.create (.aggregate ⟨aggregate.groupCount, side.calls⟩) [distinct]
    let condition ← matchGroups left.schema right.schema aggregate.groupCount ordinals
    let joined ← Firing.create (.join .inner condition) [left, right]
    return (joined, side.slots)

/-- Joins the sides of all kinds of calls, under the projection that restores the
fields of the node. -/
def joinSides (node : PlanNode) (aggregate : Aggregate) (input : PlanNode) : RuleStep PlanNode := do
  let slots ← Slots.ofGroups node.schema.fields aggregate.groupCount
  let plain ← aggregate.calls.zipIdx.foldlM (Side.addPlain aggregate.groupCount) ⟨[], slots⟩
  let base ← Firing.create (.aggregate ⟨aggregate.groupCount, plain.calls⟩) [input]
  let (joined, slots) ←
    aggregate.argumentLists.foldlM (joinDistinct aggregate input) (base, plain.slots)
  match slots.mapM id with
  | some columns => Firing.create (.projection columns node.schema.names) [joined]
  | none => Step.fail (.invalidRule (.fieldsNotMapped aggregate))

/-- Aggregates the distinct rows of one argument list, with the calls over it made
plain. -/
def overSelection (aggregate : Aggregate) (input : PlanNode) (args : List Nat) :
    RuleStep PlanNode := do
  let (distinct, ordinals) ← Firing.selectDistinct input aggregate.groupCount args
  let calls ← aggregate.calls.mapM fun call =>
    if call.distinct && call.args == args then makePlain ordinals call else return call
  Firing.create (.aggregate ⟨aggregate.groupCount, calls⟩) [distinct]

/-- Eliminates the distinct calls of an aggregate node, given their argument
lists. -/
def eliminate (node : PlanNode) (aggregate : Aggregate) (input : PlanNode) :
    List (List Nat) → RuleStep PlanNode
  | [] => Step.violate (.noDistinctCall name aggregate)
  | args :: rest => do
    if aggregate.calls.countP (!·.distinct) = 0 ∧ rest.length = 0 then
      Firing.record (.eliminatingSingleList aggregate args)
      overSelection aggregate input args
    else
      Firing.record (.eliminatingByJoins aggregate (rest.length + 1))
      joinSides node aggregate input

/-- Acts on a bound aggregate with distinct calls. -/
def action : RuleStep Unit := do
  let root ← Firing.operand 0
  match root.operator with
  | .aggregate aggregate =>
    let input ← Step.index root.inputs 0
    Firing.propose (← eliminate root aggregate input aggregate.argumentLists)
  | operator => Step.fail (.invalidRule (.operator name operator))

end DistinctElimination

/-- The rule that eliminates distinct aggregate calls. -/
def Rule.distinctElimination : Rule where
  name := DistinctElimination.name
  pattern := .any (·.hasDistinctCall)
  action := DistinctElimination.action

/-- The rules of an optimizer that is given none. -/
def Rule.defaults : List Rule := [.distinctElimination]

end QueryPlan
