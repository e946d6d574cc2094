import QueryPlan.Proofs.Elimination.Firing
import QueryPlan.Proofs.Plan.BreadthFirst
import QueryPlan.Proofs.Plan.Guarding
import QueryPlan.Proofs.Typing.Soundness

/-!
# Traversal of plans

The breadth-first order of a plan can be had in two other ways. A queue gives the
nodes first in, first out, when every node puts its unmarked inputs behind the
others as it is taken (`PlanNode.queueSearch`). A traversal works with two stacks
(`PlanNode.Traversal`): nodes are popped from one and their inputs pushed on the
other, which takes the place of the first, turned over, when this one is empty.
Read from its top, and then the other stack from its bottom, a traversal is a
queue.

Every level of the order is at one distance from the root (`PlanNode.IsLevel`), so
that the distances never decrease. Rules bind in this order as well.
-/

namespace QueryPlan

namespace PlanNode

section Queue

/-- Marks a node and puts it behind a queue, unless it is marked already. -/
def enqueue (state : List Nat × List PlanNode) (node : PlanNode) : List Nat × List PlanNode :=
  if node.key ∈ state.1 then state else (node.key :: state.1, state.2 ++ [node])

/-- Marks several nodes and puts them behind a queue, from left to right. -/
def enqueueAll (state : List Nat × List PlanNode) (nodes : List PlanNode) :
    List Nat × List PlanNode :=
  nodes.foldl enqueue state

/-- The marked keys and the queue after some nodes have been queued. -/
theorem enqueueAll_eq (marked : List Nat) (queue nodes : List PlanNode) :
    enqueueAll (marked, queue) nodes =
      (((unseen marked nodes).map (·.key)).reverse ++ marked, queue ++ unseen marked nodes) := by
  induction nodes generalizing marked queue with
  | nil => simp [enqueueAll, unseen]
  | cons node rest ih =>
      rw [enqueueAll, List.foldl_cons, ← enqueueAll, enqueue, unseen]
      by_cases old : node.key ∈ marked
      · simp only [old, if_true, ih]
      · simp only [old, if_false, ih, List.map_cons, List.reverse_cons, List.append_assoc,
          List.singleton_append]

/-- The nodes in the order in which a queue gives them: first in, first out. -/
def queueSearch (marked : List Nat) : List PlanNode → List PlanNode
  | [] => []
  | node :: queue =>
    let queued := enqueueAll (marked, queue) node.inputs
    node :: queueSearch queued.1 queued.2
termination_by queue => treeSizeAll queue
decreasing_by
  have fewer := treeSizeAll_le_of_sublist (unseen_sublist marked node.inputs)
  rw [enqueueAll_eq, treeSizeAll_append, treeSizeAll, treeSize_eq]
  omega

theorem queueSearch_cons (marked : List Nat) (node : PlanNode) (queue : List PlanNode) :
    queueSearch marked (node :: queue) =
      node :: queueSearch (((unseen marked node.inputs).map (·.key)).reverse ++ marked)
        (queue ++ unseen marked node.inputs) := by
  rw [queueSearch, enqueueAll_eq]

/-- What is unseen of two lists, one after the other. -/
theorem unseen_append (seen : List Nat) (nodes others : List PlanNode) :
    unseen seen (nodes ++ others) =
      unseen seen nodes ++
        unseen (((unseen seen nodes).map (·.key)).reverse ++ seen) others := by
  induction nodes generalizing seen with
  | nil => simp [unseen]
  | cons node rest ih =>
      rw [List.cons_append, unseen, unseen]
      by_cases old : node.key ∈ seen
      · simp only [old, if_true, ih]
      · simp only [old, if_false, ih, List.map_cons, List.reverse_cons, List.append_assoc,
          List.cons_append, List.nil_append]

/-- The order in which keys were marked does not matter. -/
theorem unseen_congr {seen marked : List Nat} (same : ∀ key, key ∈ seen ↔ key ∈ marked)
    (nodes : List PlanNode) : unseen seen nodes = unseen marked nodes := by
  induction nodes generalizing seen marked with
  | nil => rfl
  | cons node rest ih =>
      rw [unseen, unseen, ih same]
      by_cases old : node.key ∈ marked
      · rw [if_pos ((same node.key).mpr old), if_pos old]
      · have sameRest : ∀ key, key ∈ node.key :: seen ↔ key ∈ node.key :: marked := by simp [same]
        rw [if_neg (mt (same node.key).mp old), if_neg old, ih sameRest]

/-- A queue gives the nodes of a level one after the other, and their inputs stand
behind the rest then. -/
theorem queueSearch_level (marked : List Nat) (level later : List PlanNode) :
    queueSearch marked (level ++ later) =
      level ++ queueSearch (((nextLevel marked level).map (·.key)).reverse ++ marked)
        (later ++ nextLevel marked level) := by
  induction level generalizing marked later with
  | nil => simp [nextLevel, unseen]
  | cons node rest ih =>
      rw [List.cons_append, queueSearch_cons, List.append_assoc, ih, nextLevel, nextLevel,
        List.flatMap_cons, unseen_append]
      simp only [List.map_append, List.reverse_append, List.append_assoc, List.cons_append]

theorem fromLevel_eq_queueSearch (seen : List Nat) (level : List PlanNode) (marked : List Nat)
    (same : ∀ key, key ∈ seen ↔ key ∈ marked) :
    fromLevel seen level = queueSearch marked level := by
  fun_induction fromLevel seen level generalizing marked with
  | case1 seen => rw [queueSearch]
  | case2 seen level nonempty next ih =>
      have nextSame : nextLevel seen level = nextLevel marked level := unseen_congr same _
      have levelDone := queueSearch_level marked level []
      rw [List.append_nil, List.nil_append] at levelDone
      rw [levelDone, ← nextSame]
      congr 1
      apply ih
      intro key
      simp [next, same]

/-- The breadth-first order is the order of a queue. -/
theorem breadthFirst_eq_queueSearch (plan : PlanNode) :
    plan.breadthFirst = queueSearch [plan.key] [plan] :=
  fromLevel_eq_queueSearch _ _ _ fun _ => Iff.rfl

end Queue

/-- A traversal under way: two stacks of nodes, each with its top first. -/
structure Traversal where
  /-- The keys of all nodes that were ever pushed. -/
  visited : List Nat
  /-- The nodes of a level that are still to be given. -/
  current : List PlanNode
  /-- The nodes of the level below that have been found. -/
  next : List PlanNode

namespace Traversal

/-- A traversal of a plan, before the first node. -/
def start (plan : PlanNode) : Traversal := ⟨[plan.key], [plan], []⟩

/-- Pushes a node that was not pushed before. -/
def push (traversal : Traversal) (node : PlanNode) : Traversal :=
  if node.key ∈ traversal.visited then traversal
  else ⟨node.key :: traversal.visited, traversal.current, node :: traversal.next⟩

/-- Pushes several nodes, from left to right. -/
def pushAll (traversal : Traversal) (nodes : List PlanNode) : Traversal :=
  nodes.foldl push traversal

/-- Exchanges the stacks at the end of a level and turns the full one over. -/
def turn (traversal : Traversal) : Traversal :=
  if traversal.current = [] then
    ⟨traversal.visited, traversal.next.reverse, traversal.current⟩
  else traversal

/-- The next node, if there is one, and the traversal after it. -/
def next? (traversal : Traversal) : Option (PlanNode × Traversal) :=
  match traversal.turn with
  | ⟨_, [], _⟩ => none
  | ⟨visited, node :: rest, next⟩ => some (node, pushAll ⟨visited, rest, next⟩ node.inputs)

/-- Whether a traversal gives these nodes, one by one, and then ends. -/
inductive Yields : Traversal → List PlanNode → Prop
  | done {traversal : Traversal} : traversal.next? = none → Yields traversal []
  | node {traversal later : Traversal} {node : PlanNode} {nodes : List PlanNode} :
      traversal.next? = some (node, later) → Yields later nodes → Yields traversal (node :: nodes)

/-- The stacks as one queue. -/
def queue (traversal : Traversal) : List PlanNode := traversal.current ++ traversal.next.reverse

/-- The marked keys and the queue of a traversal. -/
def asQueue (traversal : Traversal) : List Nat × List PlanNode :=
  (traversal.visited, traversal.queue)

theorem asQueue_push (traversal : Traversal) (node : PlanNode) :
    (traversal.push node).asQueue = enqueue traversal.asQueue node := by
  rw [push, enqueue]
  by_cases old : node.key ∈ traversal.visited
  · simp only [old, if_true, asQueue]
  · simp only [old, if_false, asQueue, queue, List.reverse_cons, List.append_assoc]

theorem asQueue_pushAll (traversal : Traversal) (nodes : List PlanNode) :
    (traversal.pushAll nodes).asQueue = enqueueAll traversal.asQueue nodes := by
  induction nodes generalizing traversal with
  | nil => rfl
  | cons node rest ih =>
      have first := asQueue_push traversal node
      have others := ih (traversal.push node)
      rw [first] at others
      exact others

/-- Turning the stacks is not seen in the queue. -/
theorem asQueue_turn (traversal : Traversal) : traversal.turn.asQueue = traversal.asQueue := by
  rw [turn]
  split
  · rename_i done
    simp [asQueue, queue, done]
  · rfl

/-- After a turn the first stack is only empty when nothing is left. -/
theorem next_turn (traversal : Traversal) (done : traversal.turn.current = []) :
    traversal.turn.next = [] := by
  rw [turn] at done ⊢
  split
  · assumption
  · rename_i nonempty
    rw [if_neg nonempty] at done
    exact absurd done nonempty

/-- What a traversal gives is the head of its queue, and what it has left then is
the rest with the inputs of the head behind. -/
theorem next?_spec (traversal : Traversal) :
    match traversal.queue, traversal.next? with
    | [], given => given = none
    | node :: queue, given => ∃ later, given = some (node, later) ∧
        later.asQueue = enqueueAll (traversal.visited, queue) node.inputs := by
  have turned := asQueue_turn traversal
  have whole : traversal.turn.queue = traversal.queue := congrArg Prod.snd turned
  have marked : traversal.turn.visited = traversal.visited := congrArg Prod.fst turned
  rw [next?]
  rcases shape : traversal.turn with ⟨visited, _ | ⟨node, rest⟩, next⟩
  · have below := next_turn traversal (by rw [shape])
    rw [shape] at whole below
    rw [← whole, queue, below]
    rfl
  · rw [shape] at whole marked
    rw [← whole, ← marked, queue, List.cons_append]
    exact ⟨_, rfl, asQueue_pushAll _ _⟩

/-- A traversal gives the nodes of its queue, in the order of the queue. -/
theorem yields_queueSearch (marked : List Nat) (nodes : List PlanNode) :
    ∀ traversal : Traversal, traversal.asQueue = (marked, nodes) →
      Yields traversal (queueSearch marked nodes) := by
  fun_induction queueSearch marked nodes with
  | case1 marked =>
      intro traversal same
      have spec := next?_spec traversal
      rw [(Prod.mk.inj same).2] at spec
      exact .done spec
  | case2 marked node queue queued ih =>
      intro traversal same
      have spec := next?_spec traversal
      rw [(Prod.mk.inj same).2, (Prod.mk.inj same).1] at spec
      obtain ⟨later, given, left⟩ := spec
      exact .node given (ih later left)

/-- A traversal of a plan gives the breadth-first order and ends. -/
theorem yields_breadthFirst (plan : PlanNode) : Yields (start plan) plan.breadthFirst := by
  rw [breadthFirst_eq_queueSearch]
  exact yields_queueSearch _ _ (start plan) rfl

end Traversal

section Levels

/-- What is known of a level of the breadth-first order: its nodes are at this
depth, and every other node at this depth has a shorter way. The keys that have
been seen are those of the nodes down to this depth. -/
structure IsLevel (plan : PlanNode) (depth : Nat) (seen : List Nat) (level : List PlanNode) :
    Prop where
  reached : ∀ node ∈ level, OccursAt node depth plan
  least : ∀ node ∈ level, ∀ steps, OccursAt node steps plan → depth ≤ steps
  complete : ∀ node, OccursAt node depth plan →
    (∀ steps, OccursAt node steps plan → depth ≤ steps) → node ∈ level
  seen_iff : ∀ node, Occurs node plan →
    (node.key ∈ seen ↔ ∃ steps, steps ≤ depth ∧ OccursAt node steps plan)

namespace IsLevel

variable {plan : PlanNode} {depth : Nat} {seen : List Nat} {level : List PlanNode}

theorem root (coherent : plan.Coherent) : IsLevel plan 0 [plan.key] [plan] where
  reached := by simp
  least := by simp
  complete := by simp
  seen_iff := by
    intro node occurs
    simp only [List.mem_singleton, Nat.le_zero_eq]
    constructor
    · intro same
      exact ⟨0, rfl, occursAt_zero.mpr (coherent node plan occurs .here same)⟩
    · rintro ⟨_, rfl, reached⟩
      rw [occursAt_zero.mp reached]

/-- A node that is farther away than the level is not seen, and the other way round. -/
theorem not_seen_iff (isLevel : IsLevel plan depth seen level) {node : PlanNode}
    (occurs : Occurs node plan) :
    node.key ∉ seen ↔ ∀ steps, OccursAt node steps plan → depth < steps := by
  rw [isLevel.seen_iff node occurs]
  constructor
  · intro none steps reached
    exact Nat.lt_of_not_le fun near => none ⟨steps, near, reached⟩
  · rintro far ⟨steps, near, reached⟩
    exact absurd (far steps reached) (Nat.not_lt_of_le near)

theorem occurs_next (isLevel : IsLevel plan depth seen level) {node : PlanNode}
    (member : node ∈ nextLevel seen level) : OccursAt node (depth + 1) plan := by
  obtain ⟨reader, inLevel, reads⟩ := List.mem_flatMap.mp ((unseen_sublist seen _).subset member)
  exact (isLevel.reached reader inLevel).input reads

/-- A node just below the depth of a level is in the next level. -/
theorem mem_next (isLevel : IsLevel plan depth seen level) (coherent : plan.Coherent)
    {node : PlanNode} (reached : OccursAt node (depth + 1) plan)
    (far : ∀ steps, OccursAt node steps plan → depth < steps) : node ∈ nextLevel seen level := by
  obtain ⟨reader, above, reads⟩ := reached.exists_reader
  -- A shorter way to the reader would make one to the node.
  have inLevel : reader ∈ level := by
    apply isLevel.complete reader above
    intro steps readerReached
    exact Nat.le_of_lt_succ (far _ (readerReached.input reads))
  have unseenKey := (isLevel.not_seen_iff reached.occurs).mpr far
  have listed : node.key ∈ (nextLevel seen level).map (·.key) :=
    (seen_or_unseen seen _ node (List.mem_flatMap.mpr ⟨reader, inLevel, reads⟩)).resolve_left
      unseenKey
  obtain ⟨other, otherMember, same⟩ := List.mem_map.mp listed
  have otherOccurs := (isLevel.occurs_next otherMember).occurs
  rwa [← coherent other node otherOccurs reached.occurs same]

/-- The next level is one step farther from the root. -/
theorem advance (isLevel : IsLevel plan depth seen level) (coherent : plan.Coherent) :
    IsLevel plan (depth + 1) ((nextLevel seen level).map (·.key) ++ seen) (nextLevel seen level) where
  reached := fun _ member => isLevel.occurs_next member
  least := by
    intro node member steps reached
    have unseenKey := (unseen_new seen _).2 node member
    exact (isLevel.not_seen_iff reached.occurs).mp unseenKey steps reached
  complete := fun _ reached far => isLevel.mem_next coherent reached far
  seen_iff := by
    intro node occurs
    rw [List.mem_append, isLevel.seen_iff node occurs]
    constructor
    · rintro (listed | ⟨steps, near, reached⟩)
      · obtain ⟨other, member, same⟩ := List.mem_map.mp listed
        have reached := isLevel.occurs_next member
        rw [coherent other node reached.occurs occurs same] at reached
        exact ⟨depth + 1, Nat.le_refl _, reached⟩
      · exact ⟨steps, Nat.le_succ_of_le near, reached⟩
    · rintro ⟨steps, near, reached⟩
      by_cases far : ∀ steps, OccursAt node steps plan → depth < steps
      · obtain rfl := Nat.le_antisymm near (far steps reached)
        exact .inl (List.mem_map_of_mem (isLevel.mem_next coherent reached far))
      · simp only [not_forall, Nat.not_lt] at far
        obtain ⟨fewer, shorter, atMost⟩ := far
        exact .inr ⟨fewer, atMost, shorter⟩

/-- From a level on, no node comes before one that is nearer to the root. -/
theorem pairwise_fromLevel (coherent : plan.Coherent) (seen : List Nat) (level : List PlanNode) :
    ∀ depth, IsLevel plan depth seen level →
      (fromLevel seen level).Pairwise fun first second => NoFarther first second plan := by
  fun_induction fromLevel seen level with
  | case1 seen => exact fun _ _ => .nil
  | case2 seen level nonempty next ih =>
      intro depth isLevel
      have later : IsLevel plan (depth + 1) (next.map (·.key) ++ seen) next :=
        isLevel.advance coherent
      rw [List.pairwise_append]
      refine ⟨?within, ih (depth + 1) later, ?across⟩
      case within =>
        apply List.pairwise_of_forall_mem_list
        intro first isFirst second isSecond steps reached
        exact ⟨depth, isLevel.least second isSecond steps reached, isLevel.reached first isFirst⟩
      case across =>
        intro first isFirst second isSecond steps reached
        refine ⟨depth, ?_, isLevel.reached first isFirst⟩
        rcases new_of_mem_fromLevel _ _ second isSecond with isNext | new
        · exact Nat.le_of_succ_le (later.least second isNext steps reached)
        · have far := (later.not_seen_iff reached.occurs).mp new steps reached
          exact Nat.le_of_succ_le (Nat.le_of_lt far)

end IsLevel

/-- Along the breadth-first order the distances from the root never decrease. -/
theorem breadthFirst_pairwise {plan : PlanNode} (coherent : plan.Coherent) :
    plan.breadthFirst.Pairwise fun first second => NoFarther first second plan :=
  IsLevel.pairwise_fromLevel coherent _ _ 0 (IsLevel.root coherent)

end Levels

end PlanNode

namespace Rule

open DistinctElimination PlanNode

/-- Several copies of the rule bind one after the other at the nodes whose operator
has a distinct call, and nowhere else. -/
theorem bindingsIn_copies (count : Nat) (plan : PlanNode) :
    bindingsIn (List.replicate count .distinctElimination) plan =
      (plan.breadthFirst.filter (·.operator.hasDistinctCall)).flatMap fun node =>
        List.replicate count (.distinctElimination, ⟨node, []⟩) := by
  rw [bindingsIn, attempts]
  induction plan.breadthFirst with
  | nil => rfl
  | cons node rest ih =>
      rw [List.flatMap_cons, List.filterMap_append, ih, List.map_replicate, List.filterMap_replicate,
        bind?_pattern]
      cases distinct : node.operator.hasDistinctCall with
      | true => simp [distinct]
      | false => simp [distinct]

end Rule

/-- The traversal of a plan ends and gives every node that is reached from the root
once, in the order of a queue that marks nodes as they are queued. So the root
comes first, and the distances from the root never decrease. Copies of the rule
bind in this order, all of them one after the other at every aggregate with a
distinct call. -/
theorem PlanNode.breadthFirst_exact (plan : PlanNode) (coherent : plan.Coherent) :
    (Traversal.start plan).Yields plan.breadthFirst ∧
    plan.breadthFirst = queueSearch [plan.key] [plan] ∧
    (∀ node, node ∈ plan.breadthFirst ↔ Occurs node plan) ∧
    (plan.breadthFirst.map (·.key)).Nodup ∧
    plan.breadthFirst.head? = some plan ∧
    (plan.breadthFirst.Pairwise fun first second => NoFarther first second plan) ∧
    ∀ count, Rule.bindingsIn (List.replicate count .distinctElimination) plan =
      (plan.breadthFirst.filter (·.operator.hasDistinctCall)).flatMap fun node =>
        List.replicate count (.distinctElimination, ⟨node, []⟩) := by
  have order := breadthFirst_eq_queueSearch plan
  refine ⟨Traversal.yields_breadthFirst plan, order, fun _ => mem_breadthFirst coherent,
    nodup_breadthFirst plan, ?_, breadthFirst_pairwise coherent, fun count =>
    Rule.bindingsIn_copies count plan⟩
  rw [order, queueSearch_cons, List.head?_cons]

theorem Sample.customerItems_coherent : Sample.customerItems.Coherent := by
  apply @PlanNode.coherent_of_listed Sample.customerItems
    [Sample.customerItems, Sample.customers, Sample.orders] (by decide)
  intro node occurs
  rcases PlanNode.occurs_iff.mp occurs with rfl | ⟨input, member, inside⟩
  · exact List.mem_cons_self
  · rcases List.mem_pair.mp member with rfl | rfl
    · exact List.mem_cons_of_mem _ (List.mem_pair.mpr (Sample.occurs_customers.mp inside))
    · rw [Sample.occurs_orders.mp inside]
      exact List.mem_cons_of_mem _ (List.mem_cons_of_mem _ List.mem_cons_self)

/-- `breadthFirst_exact` for a plan that reads a table at two depths. -/
theorem PlanNode.breadthFirst_exact_customerItems :
    let plan := Sample.customerItems
    plan.Coherent ∧ (Traversal.start plan).Yields plan.breadthFirst ∧
      plan.breadthFirst = [plan, Sample.customers, Sample.orders] ∧
      (plan.breadthFirst.Pairwise fun first second => NoFarther first second plan) ∧
      Rule.bindingsIn [.distinctElimination, .distinctElimination] plan =
        [(.distinctElimination, ⟨Sample.customers, []⟩),
          (.distinctElimination, ⟨Sample.customers, []⟩)] := by
  obtain ⟨yields, order, _, _, _, sorted, bindings⟩ :=
    breadthFirst_exact Sample.customerItems Sample.customerItems_coherent
  have nodes : Sample.customerItems.breadthFirst =
      [Sample.customerItems, Sample.customers, Sample.orders] := by
    rw [order]
    simp [queueSearch_cons, queueSearch, unseen, Sample.customerItems, Sample.customers,
      Sample.orders, assemble]
  refine ⟨Sample.customerItems_coherent, yields, nodes, sorted, ?_⟩
  have twice := bindings 2
  rw [nodes] at twice
  exact twice

end QueryPlan
