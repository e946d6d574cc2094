import QueryPlan.Node.Outline

/-!
# Log records

What matching, rules and the optimizer report while they work. A record is kept
as what happened; its message is made when it is read.
-/

namespace QueryPlan

/-- Severity of a record. -/
inductive LogLevel where
  | warn
  | debug
  | trace
  deriving DecidableEq, Repr

namespace LogLevel

def name : LogLevel → String
  | warn => "WARN"
  | debug => "DEBUG"
  | trace => "TRACE"

/-- Greater for levels that tell more. -/
def detail : LogLevel → Nat
  | warn => 0
  | debug => 1
  | trace => 2

end LogLevel

/-- Something that happened. -/
inductive Event where
  /-- A rule proposed a further replacement for a node with this operator. -/
  | furtherReplacement (operator : Operator)
  /-- Distinct calls over one argument list are about to be eliminated. -/
  | eliminatingSingleList (aggregate : Aggregate) (args : List Nat)
  /-- Distinct calls are about to be eliminated by joins. -/
  | eliminatingByJoins (aggregate : Aggregate) (listCount : Nat)
  | declined (rule : String)
  /-- A rule does not bind at a node of a plan that is searched. -/
  | unbound (rule : String) (operator : Operator)
  /-- A rule does not bind at a node of a plan that is optimized. -/
  | skipped (rule : String) (operator : Operator)
  | trying (rule : String) (operator : Operator)
  /-- A rule has led to this plan. -/
  | applied (rule : String) (plan : PlanNode)
  | fixedPoint (iterations : Nat)

namespace Event

def level : Event → LogLevel
  | furtherReplacement _ => .warn
  | unbound .. | skipped .. => .trace
  | _ => .debug

def message : Event → String
  | furtherReplacement operator =>
    "Ignoring second replacement for " ++ operator.text ++
      ", a rule call keeps only its first result"
  | eliminatingSingleList aggregate args =>
    "Rewriting " ++ aggregate.text ++ " over a single distinct argument list [" ++
      String.intercalate ", " (args.map toString) ++ "]"
  | eliminatingByJoins aggregate listCount =>
    "Rewriting " ++ aggregate.text ++ " into joins over " ++ toString listCount ++
      " distinct argument lists"
  | declined rule => "Rule " ++ rule ++ " declined"
  | unbound rule operator => "Rule " ++ rule ++ " does not bind to " ++ operator.text
  | skipped rule operator =>
    "Skipped applying rule " ++ rule ++ " to expression " ++ operator.text
  | trying rule operator =>
    "Trying to apply rule " ++ rule ++ " to expression " ++ operator.text
  | applied rule plan => "Plan after applying rule " ++ rule ++ ":\n" ++ plan.text
  | fixedPoint iterations => "Reached fixed point after " ++ toString iterations ++ " iterations"

/-- A record as one entry of a log. -/
def line (event : Event) : String := event.level.name ++ " " ++ event.message

/-- Whether a log of this level shows the event. -/
def isShownAt (event : Event) (level : LogLevel) : Bool := event.level.detail ≤ level.detail

end Event

end QueryPlan
