import QueryPlan.Optimizer.Graph
import QueryPlan.Proofs.Store.Slots

/-!
# Graphs in slots

The working graph with all that an implementation keeps of it: operators and arcs
in numbered slots, the slot of the root, and an index from plan ids to slots. A slot
is taken again after its node was removed, and so is the number of an arc; a plan id
is not. The arcs of a slot are followed in the order of their age, the newest first.
-/

namespace QueryPlan

namespace Store

/-- What a slot holds: an operator and the id of its plan node. -/
structure Entry where
  id : Nat
  operator : Operator

/-- An edge from a slot to the slot of its input at `position`. -/
structure Arc where
  source : Nat
  target : Nat
  position : Nat
  deriving DecidableEq, Repr

end Store

/-- A graph of operators in slots. -/
structure Store where
  nodes : Slots Store.Entry
  arcs : Slots Store.Arc
  /-- The slot of the root. -/
  root : Nat
  /-- The slots of plan ids. -/
  index : Nat → Option Nat

namespace Store

/-- A graph without nodes. -/
def empty : Store := ⟨.empty, .empty, 0, fun _ => none⟩

/-- The slots of the nodes, the newest first. -/
def slots (store : Store) : List Nat := store.nodes.numbers

/-- The arcs from a slot, the newest first. -/
def arcsFrom (store : Store) (slot : Nat) : List Arc :=
  store.arcs.contents.filter (·.source == slot)

/-- Where the arcs from a slot lead, by age. -/
def targets (store : Store) (slot : Nat) : List Nat := (store.arcsFrom slot).map (·.target)

/-- The arcs from a slot, by position. -/
def sortedArcs (store : Store) (slot : Nat) : List Arc :=
  (store.arcsFrom slot).mergeSort fun left right => left.position ≤ right.position

/-- Where the arcs from a slot lead, by position. -/
def inputsOf (store : Store) (slot : Nat) : List Nat := (store.sortedArcs slot).map (·.target)

/-- Adds a node with arcs to its inputs, and gives its slot. -/
def addNode (store : Store) (id : Nat) (operator : Operator) (inputs : List Nat) : Store × Nat :=
  let slot := store.nodes.next
  let arcs := inputs.mapIdx fun position target => Arc.mk slot target position
  (⟨store.nodes.add ⟨id, operator⟩, store.arcs.addAll arcs, store.root,
    fun other => if other = id then some slot else store.index other⟩, slot)

section Import

/-- An import: the graph so far, the next id, and the slots of the nodes that are
in it, by their identity. -/
structure Import where
  store : Store
  nextId : Nat
  slotOf : Nat → Option Nat

mutual
/-- Adds the nodes of a plan that are not imported yet, inputs first, and gives the
slot of its root. -/
def importNode (state : Import) : PlanNode → Import × Nat
  | ⟨key, _, operator, inputs, _⟩ =>
    match state.slotOf key with
    | some slot => (state, slot)
    | none =>
      let below := importAll state inputs
      let added := below.1.store.addNode below.1.nextId operator below.2
      (⟨added.1, below.1.nextId + 1,
        fun other => if other = key then some added.2 else below.1.slotOf other⟩, added.2)

/-- Imports several plans from left to right. -/
def importAll (state : Import) : List PlanNode → Import × List Nat
  | [] => (state, [])
  | node :: rest =>
    let first := importNode state node
    let others := importAll first.1 rest
    (others.1, first.2 :: others.2)
end

/-- The graph of a plan, and the id that is next. -/
def ofPlan (plan : PlanNode) : Store × Nat :=
  let imported := importNode ⟨empty, 0, fun _ => none⟩ plan
  ({ imported.1.store with root := imported.2 }, imported.1.nextId)

end Import

section Search

/-- Takes what the arcs lead to out of `unmarked`. -/
def mark : (targets unmarked : List Nat) → List Nat × List Nat
  | [], unmarked => ([], unmarked)
  | target :: targets, unmarked =>
    if target ∈ unmarked then
      let (found, left) := mark targets (unmarked.erase target)
      (target :: found, left)
    else mark targets unmarked

theorem length_mark (targets unmarked : List Nat) :
    (mark targets unmarked).1.length + (mark targets unmarked).2.length = unmarked.length := by
  induction targets generalizing unmarked with
  | nil => simp [mark]
  | cons target targets ih =>
      rw [mark]
      split
      · rename_i present
        have erased := List.length_erase_of_mem present
        have positive := List.length_pos_of_mem present
        have rest := ih (unmarked.erase target)
        simp only [List.length_cons]
        omega
      · exact ih unmarked

/-- Breadth-first search: slots are marked when they enter the queue. -/
def search (targets : Nat → List Nat) (queue unmarked : List Nat) : List Nat :=
  match queue with
  | [] => []
  | slot :: queue =>
    let marked := mark (targets slot) unmarked
    slot :: search targets (queue ++ marked.1) marked.2
termination_by queue.length + unmarked.length
decreasing_by
  have := length_mark (targets slot) unmarked
  simp only [List.length_append, List.length_cons]
  omega

/-- The slots in breadth-first order from the root. -/
def breadthFirst (store : Store) : List Nat :=
  search store.targets [store.root] (store.slots.erase store.root)

end Search

section Replacement

mutual
/-- Adds the nodes of a replacement whose ids have no slot yet, inputs first, and
gives the slot of its root. -/
def insertNode (store : Store) : PlanNode → Store × Nat
  | ⟨_, id, operator, inputs, _⟩ =>
    match store.index id with
    | some slot => (store, slot)
    | none =>
      let below := insertAll store inputs
      below.1.addNode id operator below.2

/-- Inserts several plans from left to right. -/
def insertAll (store : Store) : List PlanNode → Store × List Nat
  | [] => (store, [])
  | node :: rest =>
    let first := insertNode store node
    let others := insertAll first.1 rest
    (others.1, first.2 :: others.2)
end

/-- Removes a node with all its arcs, those from it first, and takes its id out of
the index. -/
def removeNode (store : Store) (slot : Nat) : Store :=
  match store.nodes.get? slot with
  | none => store
  | some entry =>
    let outgoing := store.arcs.members.filter (·.2.source == slot)
    let incoming := store.arcs.members.filter (·.2.target == slot)
    { store with
      nodes := store.nodes.remove slot
      arcs := store.arcs.removeAll ((outgoing ++ incoming).map (·.1))
      index := fun id => if id = entry.id then none else store.index id }

/-- The slots of the nodes that the root does not reach, in increasing order. -/
def unreached (store : Store) : List Nat :=
  let reached := store.breadthFirst
  (List.range store.nodes.opened).filter fun slot => slot ∈ store.slots ∧ slot ∉ reached

/-- Removes the nodes that the root does not reach. -/
def removeUnreachable (store : Store) : Store := store.unreached.foldl removeNode store

/-- Removes arcs one by one, and puts in the place of each of them one to `target`. -/
def redirect (arcs : Slots Arc) (target : Nat) (moved : List (Nat × Arc)) : Slots Arc :=
  moved.foldl (fun arcs entry => (arcs.remove entry.1).add { entry.2 with target }) arcs

/-- Leads what led to a slot `before` some nodes came to another slot, which becomes the
root if the first one was. -/
def relink (before inserted : Store) (slot target : Nat) : Store :=
  { inserted with
    arcs := redirect inserted.arcs target (before.arcs.members.filter (·.2.target == slot))
    root := if inserted.root = slot then target else inserted.root }

/-- Puts a replacement in the place of a slot, and tells whether anything changed. -/
def replace (store : Store) (slot : Nat) (replacement : PlanNode) : Store × Bool :=
  let inserted := store.insertNode replacement
  if inserted.2 = slot then (inserted.1, false)
  else (removeUnreachable (store.relink inserted.1 slot inserted.2), true)

end Replacement

section Export

/-- The nodes that are built already, by their slots. -/
abbrev Built := List (Nat × PlanNode)

/-- Builds what several slots stand for, from left to right. -/
def exportAll (build : Built → Nat → Except Failure (PlanNode × Built)) (built : Built) :
    List Nat → Except Failure (List PlanNode × Built)
  | [] => .ok ([], built)
  | slot :: rest => do
    let (node, built) ← build built slot
    let (nodes, built) ← exportAll build built rest
    return (node :: nodes, built)

/-- Builds the node of a slot after its inputs, unless it is built already. A vacant
slot is a violation, and so is a chain of more than `depth` arcs, which does not end. -/
def exportSlot (store : Store) (firstKey : Nat) :
    (depth : Nat) → Built → Nat → Except Failure (PlanNode × Built)
  | 0, _, slot => .error (.violation (.indexOutOfRange store.slots.length slot))
  | depth + 1, built, slot =>
    match built.lookup slot with
    | some node => .ok (node, built)
    | none => do
      let (inputs, built) ← exportAll (exportSlot store firstKey depth) built (store.inputsOf slot)
      match store.nodes.get? slot with
      | none => .error (.violation (.indexOutOfRange store.slots.length slot))
      | some entry =>
        match PlanNode.build (firstKey + entry.id) entry.id entry.operator inputs with
        | .ok node => .ok (node, (slot, node) :: built)
        | .error error => .error (.error error)

/-- The plan below a slot. A chain of arcs without a cycle is shorter than the number
of nodes. -/
def toPlan (store : Store) (firstKey slot : Nat) : Except Failure PlanNode := do
  let (node, _) ← store.exportSlot firstKey store.slots.length [] slot
  return node

end Export

end Store

end QueryPlan
