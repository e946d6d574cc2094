import QueryPlan.Log
import QueryPlan.Rule.Binding
import QueryPlan.Step

/-!
# Firings

A rule that has bound its pattern acts in a firing. The firing gives it the
bound nodes, builds new nodes with ids of its own supply, and keeps the first
replacement that the rule proposes for the bound root. What a failing step has
done to the firing, an id used up or a record written, stays done.
-/

namespace QueryPlan

/-- The state of one firing of a rule. -/
structure Firing where
  binding : Binding
  /-- Id of the next new node. -/
  nextId : Nat
  /-- Identity of the next new node. -/
  nextKey : Nat
  /-- The replacement for the bound root, once one is proposed. -/
  proposal : Option PlanNode
  /-- Records of the firing, oldest first. -/
  log : List Event

/-- Steps of a rule. -/
abbrev RuleStep := Step Firing

namespace Firing

/-- A firing on a binding, with a supply of ids and identities. -/
def start (binding : Binding) (nextId nextKey : Nat) : Firing :=
  ⟨binding, nextId, nextKey, none, []⟩

def record (event : Event) : RuleStep Unit :=
  modify fun firing => { firing with log := firing.log ++ [event] }

/-- The bound root. -/
def root : RuleStep PlanNode := do return (← get).binding.root

/-- The node bound to an operand. -/
def operand (index : Nat) : RuleStep PlanNode := do
  Step.index (← get).binding.nodes index

/-- Builds a node with the next id, which is used up whether or not the node
passes its check. -/
def create (operator : Operator) (inputs : List PlanNode) : RuleStep PlanNode := do
  let firing ← get
  set { firing with nextId := firing.nextId + 1, nextKey := firing.nextKey + 1 }
  match PlanNode.build firing.nextKey firing.nextId operator inputs with
  | .ok node => return node
  | .error error => Step.fail error

@[simp] theorem perform_record (event : Event) (firing : Firing) :
    Step.perform (record event) firing = (.ok ⟨⟩, { firing with log := firing.log ++ [event] }) := rfl

theorem perform_create (operator : Operator) (inputs : List PlanNode) (firing : Firing) :
    Step.perform (create operator inputs) firing =
      let used := { firing with nextId := firing.nextId + 1, nextKey := firing.nextKey + 1 }
      match PlanNode.build firing.nextKey firing.nextId operator inputs with
      | .ok node => (.ok node, used)
      | .error error => (.error (.error error), used) := by
  simp only [create, Step.perform_bind, Step.perform_get, Step.perform_set]
  split <;> simp_all

/-- Proposes a replacement for the bound root. It must have the field types of
the root, also when it comes too late: only the first one is kept. -/
def propose (replacement : PlanNode) : RuleStep Unit := do
  let firing ← get
  let replaced := firing.binding.root
  if !replaced.schema.sameTypes replacement.schema then
    Step.violate (.incompatibleReplacement replacement.schema replaced.schema)
  else if firing.proposal.isSome then
    record (.furtherReplacement replaced.operator)
  else
    set { firing with proposal := some replacement }

end Firing

end QueryPlan
