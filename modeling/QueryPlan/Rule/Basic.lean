import QueryPlan.Rule.Firing

/-!
# Rules

A rule is a pattern together with what to do where the pattern binds. Firing a
rule gives the replacement that it proposed, or nothing if it declined.
-/

namespace QueryPlan

/-- A named transformation of plans. -/
structure Rule where
  name : String
  pattern : Pattern
  /-- Acts on a binding of the pattern. -/
  action : RuleStep Unit

namespace Rule

/-- Fires a rule on a binding with a supply of ids and identities. Gives the
proposed replacement, if any, and the state in which the firing ends, which is
there also after a failure. -/
def fire (rule : Rule) (binding : Binding) (nextId nextKey : Nat) :
    Except Failure (Option PlanNode) × Firing :=
  match Step.perform rule.action (Firing.start binding nextId nextKey) with
  | (.error failure, firing) => (.error failure, firing)
  | (.ok (), firing) =>
    match firing.proposal with
    | some node => (.ok (some node), firing)
    | none => (.ok none, { firing with log := firing.log ++ [.declined rule.name] })

/-- Tries every rule at every node of a plan, nodes in breadth-first order. -/
def attempts (rules : List Rule) (plan : PlanNode) : List (Rule × PlanNode × Option Binding) :=
  plan.breadthFirst.flatMap fun node =>
    rules.map fun rule => (rule, node, Binding.bind? rule.pattern node)

/-- Every place of a plan where one of the rules binds. -/
def bindingsIn (rules : List Rule) (plan : PlanNode) : List (Rule × Binding) :=
  (attempts rules plan).filterMap fun (rule, _, binding?) => binding?.map (rule, ·)

/-- The records of the search for bindings: the places where a rule does not
bind. -/
def unboundIn (rules : List Rule) (plan : PlanNode) : List Event :=
  (attempts rules plan).filterMap fun (rule, node, binding?) =>
    if binding?.isNone then some (.unbound rule.name node.operator) else none

end Rule

end QueryPlan
