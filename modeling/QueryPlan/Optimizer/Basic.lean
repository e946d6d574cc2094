import QueryPlan.Optimizer.Graph
import QueryPlan.Rule.DistinctElimination

/-!
# Optimizer

The optimizer numbers the nodes of a plan anew and then goes in iterations. An
iteration visits the nodes of the current plan and tries the rules at each; the
first change ends it. The optimizer stops after an iteration without a change,
or when the number of iterations is used up.
-/

namespace QueryPlan

/-- The order in which an iteration visits the nodes. -/
inductive VisitOrder where
  /-- Breadth first from the root. -/
  | topDown
  /-- The reverse of that order. -/
  | bottomUp
  deriving DecidableEq, Repr

/-- What an optimizer does to a plan. -/
structure Optimizer where
  rules : List Rule
  order : VisitOrder
  maxIterations : Nat

/-- An optimizer with these rules and otherwise usual settings. -/
def Optimizer.ofRules (rules : List Rule) : Optimizer := ⟨rules, .topDown, 1000⟩

/-- The state of an optimization. -/
structure OptimizerRun where
  graph : PlanDag
  /-- Key of the node with id zero; the node with id `n` has the key `firstKey + n`. -/
  firstKey : Nat
  nextId : Nat
  /-- Records of the run, latest first. -/
  log : List Event

/-- Steps of an optimization. -/
abbrev OptimizerStep := Step OptimizerRun

namespace OptimizerRun

/-- A run on the graph of a plan. -/
def start (plan : PlanNode) (firstKey : Nat) : OptimizerRun :=
  let graph := PlanDag.ofPlan plan
  ⟨graph, firstKey, graph.size, []⟩

def record (event : Event) : OptimizerStep Unit :=
  modify fun run => { run with log := event :: run.log }

/-- The plan that the graph stands for now. -/
def plan : OptimizerStep PlanNode := do
  let run ← get
  Step.ofExcept (run.graph.toPlan run.firstKey)

/-- The nodes of the current plan in the order of visits. -/
def visits (order : VisitOrder) : OptimizerStep (List PlanNode) := do
  let run ← get
  let nodes ← Step.ofExcept (run.graph.nodes run.firstKey)
  let vertices := run.graph.breadthFirst
  let ordered := match order with
    | .topDown => vertices
    | .bottomUp => vertices.reverse
  return ordered.filterMap fun vertex => nodes.find? (·.id == vertex.id)

/-- Fires a rule with the ids of the run. -/
def fire (rule : Rule) (binding : Binding) : OptimizerStep (Option PlanNode) := do
  let run ← get
  let (result, firing) := rule.fire binding run.nextId (run.firstKey + run.nextId)
  set { run with nextId := firing.nextId, log := firing.log.reverse ++ run.log }
  match result with
  | .ok replacement? => return replacement?
  | .error (.error error) => Step.fail (error.during (.applying rule.name))
  | .error (.violation violation) => Step.violate violation

/-- Tries a rule at a node of the current plan. Tells whether the plan changed. -/
def attempt (node : PlanNode) (rule : Rule) : OptimizerStep Bool := do
  match Binding.bind? rule.pattern node with
  | none =>
    record (.skipped rule.name node.operator)
    return false
  | some binding =>
    record (.trying rule.name node.operator)
    match ← fire rule binding with
    | none => return false
    | some replacement =>
      if replacement.id = node.id then return false
      else
        modify fun run => { run with graph := run.graph.replace node.id replacement }
        record (.applied rule.name (← plan))
        return true

/-- One iteration: up to the first change, which it tells of. -/
def iterate (optimizer : Optimizer) : OptimizerStep Bool := do
  (← visits optimizer.order).anyM fun node => optimizer.rules.anyM (attempt node)

/-- Iterates at most `remaining` more times, after `done` iterations. -/
def iterations (optimizer : Optimizer) : (remaining done : Nat) → OptimizerStep Unit
  | 0, _ => return ()
  | remaining + 1, done => do
    if ← iterate optimizer then
      iterations optimizer remaining (done + 1)
    else
      record (.fixedPoint (done + 1))

end OptimizerRun

/-- What an optimization gives: the new plan or why there is none, the key that
follows those of the new plan, and the records, oldest first. -/
structure Optimization where
  plan : Except Failure PlanNode
  nextKey : Nat
  log : List Event

/-- Optimizes a plan. The nodes of the result have keys from `firstKey` on. -/
def Optimizer.optimize (optimizer : Optimizer) (plan : PlanNode) (firstKey : Nat) :
    Optimization :=
  let steps : OptimizerStep PlanNode := do
    OptimizerRun.iterations optimizer optimizer.maxIterations 0
    OptimizerRun.plan
  let (result, run) := Step.perform steps (OptimizerRun.start plan firstKey)
  ⟨result, firstKey + run.nextId, run.log.reverse⟩

end QueryPlan
