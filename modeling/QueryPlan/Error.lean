import QueryPlan.Operator.Basic
import QueryPlan.Text.Quoted
import QueryPlan.Text.Width

/-!
# Errors

Two kinds of failure are kept apart. A `PlanError` is what a caller can cause
with a bad plan or a rule that is bound to the wrong place; it says what is
wrong and, outermost first, what was being done. A `Violation` is a broken
obligation of a rule or of a caller, which no plan should lead to.
-/

namespace QueryPlan

/-- Why an operator does not fit its inputs, or a plan cannot be built. -/
inductive Malformed where
  | columnOutOfRange (index width : Nat)
  | columnType (index : Nat) (declared : ScalarType) (field : Field)
  | argumentCount (op : ScalarOp) (count : Nat)
  | argumentTypes (op : ScalarOp) (left right : ScalarType)
  | groupCount (groupCount width : Nat)
  | distinctWithoutArguments (call : AggregateCall)
  | callWithoutArguments (call : AggregateCall)
  | callArgumentOutOfRange (arg : Nat) (call : AggregateCall) (width : Nat)
  | projectionNames (exprs names : Nat)
  | filterNotBoolean (predicate : Expr)
  | joinNotBoolean (condition : Expr)
  | arity (operator : Operator) (count : Nat)
  | selectionOutOfRange (ordinal width : Nat)
  | missingInput (operatorName : String)
  | emptyPlan

namespace Malformed

def text : Malformed → String
  | columnOutOfRange index width =>
    "field reference $" ++ toString index ++ " out of range for " ++ toString width ++ " fields"
  | columnType index declared field =>
    "field reference $" ++ toString index ++ " declared as " ++ declared.name ++ " but field " ++
      field.name ++ " is " ++ field.type.name
  | argumentCount op count =>
    "operator " ++ op.symbol ++ " expects 2 arguments, got " ++ toString count
  | argumentTypes op left right =>
    "operator " ++ op.symbol ++ " cannot be applied to " ++ left.name ++ " and " ++ right.name
  | groupCount count width =>
    "aggregate groups by " ++ toString count ++ " fields but input has " ++ toString width
  | distinctWithoutArguments call =>
    "distinct aggregate call " ++ call.text ++ " has no arguments"
  | callWithoutArguments call => "aggregate call " ++ call.text ++ " requires arguments"
  | callArgumentOutOfRange arg call width =>
    "argument $" ++ toString arg ++ " of aggregate call " ++ call.text ++ " out of range for " ++
      toString width ++ " input fields"
  | projectionNames exprs names =>
    "projection has " ++ toString exprs ++ " expressions but " ++ toString names ++ " field names"
  | filterNotBoolean predicate => "filter predicate " ++ predicate.text ++ " is not boolean"
  | joinNotBoolean condition => "join condition " ++ condition.text ++ " is not boolean"
  | arity operator count =>
    operator.text ++ " expects " ++ toString operator.arity ++ " inputs, got " ++
      toString count
  | selectionOutOfRange ordinal width =>
    "cannot select field $" ++ toString ordinal ++ " from " ++ toString width ++ " input fields"
  | missingInput operatorName => operatorName ++ " requires an input"
  | emptyPlan => "cannot build an empty plan"

end Malformed

/-- Why a rule cannot go on where it is bound. -/
inductive Misbinding where
  /-- The rule does not handle this operator. -/
  | operator (rule : String) (operator : Operator)
  /-- A call reads a column that the selection below it leaves out. -/
  | argumentNotSelected (arg : Nat) (call : AggregateCall)
  /-- Some field of the aggregate is nowhere in what takes its place. -/
  | fieldsNotMapped (aggregate : Aggregate)

def Misbinding.text : Misbinding → String
  | operator rule bound => rule ++ " bound to " ++ bound.text
  | argumentNotSelected arg call =>
    "argument $" ++ toString arg ++ " of " ++ call.text ++ " was not selected"
  | fieldsNotMapped aggregate =>
    "not every field of " ++ aggregate.text ++ " was mapped by the rewrite"

/-- What is wrong. -/
inductive Fault where
  | malformed (cause : Malformed)
  | invalidRule (cause : Misbinding)

def Fault.text : Fault → String
  | .malformed cause => "Malformed plan: " ++ cause.text
  | .invalidRule cause => "Invalid rule binding: " ++ cause.text

/-- What was being done when a fault was found. -/
inductive Activity where
  | building (operator : Operator)
  | applying (rule : String)

def Activity.text : Activity → String
  | .building operator => "Failed to build " ++ operator.text
  | .applying rule => "Failed to apply rule " ++ rule

/-- A fault with the activities around it, outermost first. -/
structure PlanError where
  activities : List Activity
  fault : Fault

namespace PlanError

/-- A malformed plan, found outside any activity. -/
def malformed (cause : Malformed) : PlanError := ⟨[], .malformed cause⟩

/-- A rule that cannot go on, found outside any activity. -/
def invalidRule (cause : Misbinding) : PlanError := ⟨[], .invalidRule cause⟩

/-- The same error, found during a further activity. -/
def during (error : PlanError) (activity : Activity) : PlanError :=
  { error with activities := activity :: error.activities }

def message (error : PlanError) : String :=
  String.intercalate ": " (error.activities.map Activity.text ++ [error.fault.text])

end PlanError

/-- A broken obligation of a rule or of a caller. -/
inductive Violation where
  /-- The replacement does not have the field types of the node it replaces. -/
  | incompatibleReplacement (replacement replaced : Schema)
  | noDistinctCall (rule : String) (aggregate : Aggregate)
  /-- A position beyond the end of a list. -/
  | indexOutOfRange (length index : Nat)
  /-- A first part that is longer than the list. -/
  | sliceOutOfRange (length count : Nat)
  /-- A column that is looked up in a selection without it. -/
  | columnNotFound
  /-- A slot for an output column that is filled twice. -/
  | slotTaken
  /-- A line of a table whose width cannot be told. -/
  | overdrawn (line : Text.Overdrawn)

def Violation.message : Violation → String
  | .incompatibleReplacement replacement replaced =>
    "Replacement fields " ++ replacement.text ++ " are not compatible with original fields " ++
      replaced.text
  | .noDistinctCall rule aggregate =>
    rule ++ " bound to an aggregate without distinct calls: " ++ aggregate.text
  | .indexOutOfRange length index =>
    "index out of bounds: the len is " ++ toString length ++ " but the index is " ++ toString index
  | .sliceOutOfRange length count =>
    "range end index " ++ toString count ++ " out of range for slice of length " ++ toString length
  | .columnNotFound => "no entry found for key"
  | .slotTaken => "assertion failed: refs[group_count + i].is_none()"
  | .overdrawn ⟨line, columns, hidden⟩ =>
    "internal error: width " ++ toString columns ++ " less than hidden " ++ toString hidden ++
      " on string " ++ Text.quoted line

/-- Any way in which a step can fail. -/
inductive Failure where
  | error (error : PlanError)
  | violation (violation : Violation)

end QueryPlan
