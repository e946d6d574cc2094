import QueryPlan.Proofs.Run.Optimization
import QueryPlan.Proofs.Store.Export
import QueryPlan.Proofs.Store.Import
import QueryPlan.Proofs.Store.Splice

/-!
# Optimizing in a store

The optimizer, with its graph in slots. Side by side with a run on the working graph
that the store implements, every step comes to the same: the same slots are visited,
the same nodes are exported, the same results are spliced, and the same is recorded.
So both optimizers give the same.
-/

namespace QueryPlan

open DistinctElimination

/-- The state of an optimization with its graph in slots. -/
structure StoreRun where
  store : Store
  /-- Key of the node with id zero. -/
  firstKey : Nat
  nextId : Nat
  /-- Records of the run, latest first. -/
  log : List Event

/-- Steps of an optimization with its graph in slots. -/
abbrev StoreStep := Step StoreRun

namespace StoreRun

/-- A run on the store of a plan. -/
def start (plan : PlanNode) (firstKey : Nat) : StoreRun :=
  let imported := Store.ofPlan plan
  ⟨imported.1, firstKey, imported.2, []⟩

def record (event : Event) : StoreStep Unit :=
  modify fun run => { run with log := event :: run.log }

/-- The plan below a slot. -/
def planAt (slot : Nat) : StoreStep PlanNode := do
  let run ← get
  match run.store.toPlan run.firstKey slot with
  | .ok node => return node
  | .error failure => throw failure

/-- The slots in the order of visits. -/
def visits (order : VisitOrder) (store : Store) : List Nat :=
  match order with
  | .topDown => store.breadthFirst
  | .bottomUp => store.breadthFirst.reverse

/-- Fires a rule with the ids of the run. -/
def fire (rule : Rule) (binding : Binding) : StoreStep (Option PlanNode) := do
  let run ← get
  let (result, firing) := rule.fire binding run.nextId (run.firstKey + run.nextId)
  set { run with nextId := firing.nextId, log := firing.log.reverse ++ run.log }
  match result with
  | .ok replacement? => return replacement?
  | .error (.error error) => Step.fail (error.during (.applying rule.name))
  | .error (.violation violation) => Step.violate violation

/-- Splices a result into the store. Tells whether the store changed. -/
def splice (rule : Rule) (slot : Nat) (replacement : PlanNode) : StoreStep Bool := do
  let run ← get
  let (store, changed) := run.store.replace slot replacement
  set { run with store }
  if changed then
    record (.applied rule.name (← planAt store.root))
  return changed

/-- Tries a rule at a slot. Tells whether the store changed. -/
def attempt (slot : Nat) (rule : Rule) : StoreStep Bool := do
  let node ← planAt slot
  match Binding.bind? rule.pattern node with
  | none =>
    record (.skipped rule.name node.operator)
    return false
  | some binding =>
    record (.trying rule.name node.operator)
    match ← fire rule binding with
    | none => return false
    | some replacement => splice rule slot replacement

/-- One iteration: up to the first change, which it tells of. -/
def iterate (optimizer : Optimizer) : StoreStep Bool := do
  (visits optimizer.order (← get).store).anyM fun slot => optimizer.rules.anyM (attempt slot)

/-- Iterates at most `remaining` more times, after `done` iterations. -/
def iterations (optimizer : Optimizer) : (remaining done : Nat) → StoreStep Unit
  | 0, _ => return ()
  | remaining + 1, done => do
    if ← iterate optimizer then
      iterations optimizer remaining (done + 1)
    else
      record (.fixedPoint (done + 1))

end StoreRun

/-- Optimizes a plan with the graph in slots. -/
def Optimizer.optimizeInSlots (optimizer : Optimizer) (plan : PlanNode) (firstKey : Nat) :
    Optimization :=
  let steps : StoreStep PlanNode := do
    StoreRun.iterations optimizer optimizer.maxIterations 0
    StoreRun.planAt (← get).store.root
  let (result, run) := Step.perform steps (StoreRun.start plan firstKey)
  ⟨result, firstKey + run.nextId, run.log.reverse⟩

namespace Step

variable {State Other α β : Type} {related finished : State → Other → Prop}

/-- Whether two searches come to the same: to nothing, in states that are still related,
or to something, in states that are `finished`. -/
inductive Agrees (related finished : State → Other → Prop) :
    Except Failure Bool × State → Except Failure Bool × Other → Prop
  | nothing {state : State} {other : Other} :
      related state other → Agrees related finished (.ok false, state) (.ok false, other)
  | found {state : State} {other : Other} :
      finished state other → Agrees related finished (.ok true, state) (.ok true, other)

/-- Searches agree when the tests of each member and of its image do. -/
theorem agrees_anyM {test : α → Step State Bool} {image : α → β} {check : β → Step Other Bool}
    {members : List α}
    (agree : ∀ member ∈ members, ∀ state other, related state other →
      Agrees related finished (perform (test member) state) (perform (check (image member)) other))
    {state : State} {other : Other} (start : related state other) :
    Agrees related finished (perform (members.anyM test) state)
      (perform ((members.map image).anyM check) other) := by
  induction members generalizing state other with
  | nil => exact .nothing start
  | cons first rest ih =>
      obtain ⟨atFirst, others⟩ := List.forall_mem_cons.mp agree
      have outcome := atFirst state other start
      rw [List.map_cons, perform_anyM_cons, perform_anyM_cons]
      generalize perform (test first) state = left at outcome
      generalize perform (check (image first)) other = right at outcome
      cases outcome with
      | nothing still => exact ih others still
      | found finished => exact .found finished

theorem Agrees.of_false {state : State} {outcome : Except Failure Bool × Other}
    (agrees : Agrees related finished (.ok false, state) outcome) :
    ∃ other, related state other := by
  cases agrees with
  | nothing still => exact ⟨_, still⟩

theorem Agrees.right_of_left {state : State} {outcome : Except Failure Bool × Other}
    (agrees : Agrees related finished (.ok true, state) outcome) :
    ∃ other, outcome = (.ok true, other) ∧ finished state other := by
  cases agrees with
  | found finished => exact ⟨_, rfl, finished⟩

theorem Agrees.left_of_right {other : Other} {outcome : Except Failure Bool × State}
    (agrees : Agrees related finished outcome (.ok true, other)) :
    ∃ state, outcome = (.ok true, state) ∧ finished state other := by
  cases agrees with
  | found finished => exact ⟨_, rfl, finished⟩

end Step

namespace StoreRun

/-- Whether a run has in slots what another one has in a working graph, with `node` for
the nodes of the ids. -/
structure Mirrors (run : StoreRun) (other : OptimizerRun) (node : Nat → PlanNode) : Prop where
  implements : run.store.Implements other.graph
  represents : Represents other.graph other.firstKey node
  fresh : ∀ id ∈ other.graph.ids, id < other.nextId
  firstKey : run.firstKey = other.firstKey
  nextId : run.nextId = other.nextId
  log : run.log = other.log

/-- Whether two runs go along. -/
def Follows (run : StoreRun) (other : OptimizerRun) : Prop := ∃ node, run.Mirrors other node

/-- Whether two runs go along, and nothing has happened since `begun` but that there are
new records. -/
def Waits (begun : StoreRun) (node : Nat → PlanNode) (run : StoreRun) (other : OptimizerRun) :
    Prop :=
  run.Mirrors other node ∧ ∃ log, run = { begun with log }

variable {run : StoreRun} {other : OptimizerRun} {node : Nat → PlanNode} {slot : Nat}

@[simp] theorem perform_record (event : Event) (run : StoreRun) :
    Step.perform (record event) run = (.ok (), { run with log := event :: run.log }) := rfl

/-- What firing the elimination in a run gives. -/
theorem perform_fire {target input : PlanNode} {aggregate : Aggregate}
    (eliminable : target.Eliminable aggregate input) (run : StoreRun) :
    Step.perform (fire .distinctElimination ⟨target, []⟩) run =
      (.ok (some ((templateOf target).place (run.firstKey + run.nextId) run.nextId)),
        { run with
          nextId := run.nextId + (templateOf target).size
          log := eventOf aggregate :: run.log }) := by
  simp only [fire, Step.perform_bind, Step.perform_get, fire_eq eliminable, Step.perform_set,
    Step.perform_pure, List.reverse_singleton, List.singleton_append]

namespace Mirrors

/-- The start of an optimization. -/
theorem start {plan : PlanNode} (valid : plan.Valid) (firstKey : Nat) :
    (StoreRun.start plan firstKey).Mirrors (.start plan firstKey)
      (placeLabel firstKey plan.nodes) := by
  obtain ⟨implements, nextId⟩ := Store.implements_ofPlan valid.coherent
  exact ⟨implements, represents_ofPlan valid, fresh_ofPlan valid.coherent, rfl, nextId, rfl⟩

theorem record (mirrors : run.Mirrors other node) (event : Event) :
    Mirrors { run with log := event :: run.log } { other with log := event :: other.log } node :=
  ⟨mirrors.implements, mirrors.represents, mirrors.fresh, mirrors.firstKey, mirrors.nextId,
    congrArg (event :: ·) mirrors.log⟩

/-- An export gives the node of the id in the slot. -/
theorem perform_planAt (mirrors : run.Mirrors other node) (taken : slot ∈ run.store.slots) :
    Step.perform (planAt slot) run = (.ok (node (run.store.idAt slot)), run) := by
  have exported := Store.toPlan_eq mirrors.implements mirrors.represents taken
  simp only [planAt, Step.perform_bind, Step.perform_get, mirrors.firstKey, exported,
    Step.perform_pure]

/-- The slots that are visited have the ids that are visited. -/
theorem map_visits (mirrors : run.Mirrors other node) (order : VisitOrder) :
    (visits order run.store).map run.store.idAt =
      (OptimizerRun.visited other.graph order).map (·.id) := by
  have linked := mirrors.implements.linked
  have ids := linked.map_breadthFirst mirrors.implements.root mirrors.implements.vertices
  rw [mirrors.implements.rootId] at ids
  cases order with
  | topDown => exact ids
  | bottomUp =>
      rw [visits, OptimizerRun.visited, List.map_reverse, List.map_reverse, ids]

/-- What splicing a graft in the place of a vertex does to a run. -/
theorem perform_splice (mirrors : run.Mirrors other node) {target : Vertex} {graft : PlanNode}
    (graftable : Graftable other.graph other.firstKey node target graft)
    (taken : slot ∈ run.store.slots) (id : run.store.idAt slot = target.id) (rule : Rule) :
    let plan := PlanNode.substitute target.id graft (node other.graph.root)
    Step.perform (splice rule slot graft) run =
      (.ok true, ⟨(run.store.replace slot graft).1, run.firstKey, run.nextId,
        .applied rule.name plan :: run.log⟩) := by
  obtain ⟨changed, implements⟩ := Store.implements_replace mirrors.implements graftable taken id
  have exported := Store.toPlan_eq implements graftable.represents_replace implements.root
  rw [implements.rootId, graftable.plan_replace, ← mirrors.firstKey] at exported
  simp only [splice, Step.perform_bind, Step.perform_get, Step.perform_set, changed, if_true,
    planAt, exported, Step.perform_pure, perform_record]

/-- Trying the elimination where it does not bind only leaves a record. -/
theorem perform_attempt_of_undistinct (mirrors : run.Mirrors other node)
    (taken : slot ∈ run.store.slots)
    (undistinct : (node (run.store.idAt slot)).operator.hasDistinctCall = false) :
    Step.perform (attempt slot .distinctElimination) run =
      (.ok false, { run with
        log := .skipped name (node (run.store.idAt slot)).operator :: run.log }) := by
  have unbound := bind?_of_undistinct undistinct
  rw [attempt, Step.perform_bind, mirrors.perform_planAt taken]
  simp only [unbound]
  rfl

/-- What trying the elimination at an aggregate with distinct calls does to a run. -/
theorem perform_attempt_eq (mirrors : run.Mirrors other node) (taken : slot ∈ run.store.slots)
    {vertex : Vertex} (id : run.store.idAt slot = vertex.id) {aggregate : Aggregate}
    {input : PlanNode}
    (replaceable : Replaceable other.graph other.firstKey node vertex
      (templateOf (node vertex.id)) other.nextId)
    (eliminable : (node vertex.id).Eliminable aggregate input) :
    let replacement := (templateOf (node vertex.id)).place (other.firstKey + other.nextId)
      other.nextId
    Step.perform (attempt slot .distinctElimination) run =
      (.ok true,
        ⟨(run.store.replace slot replacement).1, run.firstKey,
          run.nextId + (templateOf (node vertex.id)).size,
          .applied name (PlanNode.substitute vertex.id replacement (node other.graph.root)) ::
            eventOf aggregate :: .trying name (node vertex.id).operator :: run.log⟩) := by
  intro replacement
  have bound := bind?_of_eliminable eliminable
  have fired : Mirrors
      { run with
        nextId := run.nextId + (templateOf (node vertex.id)).size
        log := eventOf aggregate :: .trying name (node vertex.id).operator :: run.log }
      { other with
        nextId := other.nextId + (templateOf (node vertex.id)).size
        log := eventOf aggregate :: .trying name (node vertex.id).operator :: other.log } node := by
    refine ⟨mirrors.implements, mirrors.represents, ?_, mirrors.firstKey, ?_, ?_⟩
    · exact fun id member => Nat.lt_add_right _ (mirrors.fresh id member)
    · exact congrArg (· + _) mirrors.nextId
    · exact congrArg (_ :: _ :: ·) mirrors.log
  have spliced := fired.perform_splice replaceable.graftable taken id .distinctElimination
  rw [attempt, Step.perform_bind, mirrors.perform_planAt taken, id]
  simp only [bound, Step.perform_bind, perform_record, perform_fire eliminable]
  rw [mirrors.firstKey, mirrors.nextId] at spliced ⊢
  exact spliced

/-- After a splice the runs still go along, with other nodes. -/
theorem spliced (mirrors : run.Mirrors other node) (taken : slot ∈ run.store.slots)
    {target : Vertex} (id : run.store.idAt slot = target.id) {template : Template}
    (replaceable : Replaceable other.graph other.firstKey node target template other.nextId)
    (events : List Event) :
    let replacement := template.place (other.firstKey + other.nextId) other.nextId
    ∃ later, Mirrors
      ⟨(run.store.replace slot replacement).1, run.firstKey, run.nextId + template.size,
        events ++ run.log⟩
      ⟨other.graph.replace target.id replacement, other.firstKey, other.nextId + template.size,
        events ++ other.log⟩ later :=
  have graftable := replaceable.graftable
  ⟨_, (Store.implements_replace mirrors.implements graftable taken id).2,
    graftable.represents_replace, replaceable.fresh_replace, mirrors.firstKey,
    congrArg (· + _) mirrors.nextId, congrArg (events ++ ·) mirrors.log⟩

/-- The vertex in a slot, and its id. -/
theorem exists_vertex (mirrors : run.Mirrors other node) (taken : slot ∈ run.store.slots) :
    ∃ vertex ∈ other.graph.vertices, run.store.idAt slot = vertex.id := by
  obtain ⟨entry, member⟩ := Store.mem_slots.mp taken
  exact ⟨_, mirrors.implements.vertexAt_mem member, Store.idAt_of_mem member⟩

/-- Trying the elimination comes to the same at a slot and at the node of its id. -/
theorem agrees_attempt (mirrors : run.Mirrors other node) (taken : slot ∈ run.store.slots) :
    Step.Agrees (Waits run node) Follows
      (Step.perform (attempt slot .distinctElimination) run)
      (Step.perform (OptimizerRun.attempt (node (run.store.idAt slot)) .distinctElimination)
        other) := by
  obtain ⟨vertex, member, id⟩ := mirrors.exists_vertex taken
  cases distinct : (node (run.store.idAt slot)).operator.hasDistinctCall with
  | false =>
      rw [mirrors.perform_attempt_of_undistinct taken distinct, OptimizerRun.attempt,
        bind?_of_undistinct distinct]
      exact .nothing ⟨mirrors.record _, _, rfl⟩
  | true =>
      rw [id] at distinct
      obtain ⟨aggregate, input, eliminable⟩ :=
        (mirrors.represents.labels.checked member).eliminable distinct
      have replaceable := OptimizerRun.replaceable_templateOf mirrors.represents member eliminable
        mirrors.fresh
      rw [mirrors.perform_attempt_eq taken id replaceable eliminable, id,
        OptimizerRun.perform_attempt_eq replaceable eliminable]
      exact .found (mirrors.spliced taken id replaceable [_, _, _])

/-- Trying copies of the elimination at a slot comes to the same as at its node. -/
theorem agrees_rules (mirrors : run.Mirrors other node) (taken : slot ∈ run.store.slots)
    (copies : Nat) :
    Step.Agrees (Waits run node) Follows
      (Step.perform ((List.replicate copies Rule.distinctElimination).anyM (attempt slot)) run)
      (Step.perform ((List.replicate copies Rule.distinctElimination).anyM
        (OptimizerRun.attempt (node (run.store.idAt slot)))) other) := by
  have rules := @Step.agrees_anyM _ _ _ _ (Waits run node) Follows (attempt slot) id
    (OptimizerRun.attempt (node (run.store.idAt slot)))
    (List.replicate copies Rule.distinctElimination) ?_ _ _ ⟨mirrors, _, rfl⟩
  · rwa [List.map_id] at rules
  · intro rule isRule between betweenOther waits
    obtain rfl := List.eq_of_mem_replicate isRule
    obtain ⟨still, log, rfl⟩ := waits
    exact still.agrees_attempt taken

/-- Trying copies of the elimination at some slots comes to the same as at their nodes. -/
theorem agrees_search (mirrors : run.Mirrors other node) {slots : List Nat}
    (taken : ∀ slot ∈ slots, slot ∈ run.store.slots) (copies : Nat) :
    Step.Agrees (Waits run node) Follows
      (Step.perform (slots.anyM fun slot =>
        (List.replicate copies Rule.distinctElimination).anyM (attempt slot)) run)
      (Step.perform ((slots.map fun slot => node (run.store.idAt slot)).anyM fun node =>
        (List.replicate copies Rule.distinctElimination).anyM (OptimizerRun.attempt node))
        other) := by
  refine Step.agrees_anyM ?_ ⟨mirrors, _, rfl⟩
  intro slot member between betweenOther waits
  obtain ⟨still, log, rfl⟩ := waits
  exact still.agrees_rules (taken slot member) copies

/-- All slots are visited. -/
theorem mem_visits (mirrors : run.Mirrors other node) (order : VisitOrder) :
    slot ∈ visits order run.store ↔ slot ∈ run.store.slots := by
  have implements := mirrors.implements
  have found : slot ∈ run.store.breadthFirst ↔ slot ∈ run.store.slots := by
    rw [implements.linked.mem_breadthFirst implements.root implements.vertices
      mirrors.represents.ordered]
    refine and_iff_left_of_imp fun taken => ?_
    obtain ⟨vertex, member, id⟩ := mirrors.exists_vertex taken
    rw [implements.rootId, id]
    exact mirrors.represents.reachable vertex member
  cases order with
  | topDown => exact found
  | bottomUp => exact List.mem_reverse.trans found

/-- An iteration comes to the same. -/
theorem agrees_iterate (mirrors : run.Mirrors other node) (copies : Nat) (order : VisitOrder)
    (maxIterations : Nat) :
    Step.Agrees (Waits run node) Follows
      (Step.perform (iterate (.eliminating copies order maxIterations)) run)
      (Step.perform (OptimizerRun.iterate (.eliminating copies order maxIterations)) other) := by
  have nodes : (OptimizerRun.visited other.graph order).map (fun vertex => node vertex.id) =
      (visits order run.store).map fun slot => node (run.store.idAt slot) := by
    have ids := congrArg (List.map node) (mirrors.map_visits order)
    rw [List.map_map, List.map_map] at ids
    exact ids.symm
  have agrees := mirrors.agrees_search (fun slot => (mirrors.mem_visits order).mp) copies
  rw [← nodes] at agrees
  rw [iterate, OptimizerRun.iterate, Step.perform_bind, Step.perform_bind,
    Optimizer.eliminating, OptimizerRun.perform_visits_eq mirrors.represents]
  exact agrees

end Mirrors

/-- Iterations come to the same. -/
theorem follows_iterations (follows : run.Follows other) (copies : Nat) (order : VisitOrder)
    (maxIterations remaining done : Nat) :
    let optimizer := Optimizer.eliminating copies order maxIterations
    let outcome := Step.perform (iterations optimizer remaining done) run
    let otherOutcome := Step.perform (OptimizerRun.iterations optimizer remaining done) other
    outcome.1 = otherOutcome.1 ∧ outcome.2.Follows otherOutcome.2 := by
  induction remaining generalizing run other done with
  | zero => exact ⟨rfl, follows⟩
  | succ remaining ih =>
      obtain ⟨node, mirrors⟩ := follows
      have agrees := mirrors.agrees_iterate copies order maxIterations
      simp only [iterations, OptimizerRun.iterations, Step.perform_bind]
      generalize Step.perform (iterate _) run = first at agrees
      generalize Step.perform (OptimizerRun.iterate _) other = second at agrees
      cases agrees with
      | nothing waits => exact ⟨rfl, node, waits.1.record _⟩
      | found follows => exact ih follows (done + 1)

end StoreRun

/-- Both optimizers give the same. -/
theorem Optimizer.optimizeInSlots_eq {plan : PlanNode} (valid : plan.Valid) (copies : Nat)
    (order : VisitOrder) (maxIterations firstKey : Nat) :
    (eliminating copies order maxIterations).optimizeInSlots plan firstKey =
      (eliminating copies order maxIterations).optimize plan firstKey := by
  have start : (StoreRun.start plan firstKey).Follows (.start plan firstKey) :=
    ⟨_, .start valid firstKey⟩
  obtain ⟨same, later⟩ := StoreRun.follows_iterations start copies order maxIterations
    (eliminating copies order maxIterations).maxIterations 0
  rw [optimizeInSlots, optimize, Step.perform_bind, Step.perform_bind]
  generalize Step.perform (StoreRun.iterations _ _ _) _ = first at same later
  generalize Step.perform (OptimizerRun.iterations _ _ _) _ = second at same later
  obtain ⟨outcome, run⟩ := first
  obtain ⟨otherOutcome, other⟩ := second
  obtain ⟨node, mirrors⟩ := later
  obtain rfl : outcome = otherOutcome := same
  have nextId : run.nextId = other.nextId := mirrors.nextId
  have log : run.log = other.log := mirrors.log
  cases outcome with
  | error failure => simp only [nextId, log]
  | ok value =>
      have optimized := mirrors.perform_planAt mirrors.implements.root
      rw [mirrors.implements.rootId] at optimized
      have exported := OptimizerRun.perform_plan
        ⟨⟨node, mirrors.represents, rfl⟩, mirrors.fresh⟩
      simp only [Step.perform_bind, Step.perform_get, optimized, exported, nextId, log]

end QueryPlan
