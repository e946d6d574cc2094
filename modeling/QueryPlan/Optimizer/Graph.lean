import QueryPlan.Node.Basic

/-!
# Working graph

The plan that an optimizer works on, as a list of vertices in which every
vertex comes after its inputs. Vertices are named by plan ids, which are unique
within a graph; a plan node that is built from a vertex keeps its id, so that a
replacement made of such nodes is put back onto the vertices they came from.

The edges of a vertex are kept newest first. An edge that is redirected counts
as new, and breadth-first search follows the edges in this order.
-/

namespace QueryPlan

/-- An edge from a vertex to the vertex of its input at `position`. -/
structure Edge where
  position : Nat
  input : Nat
  deriving DecidableEq, Repr

/-- An operator with edges to its inputs, newest edge first. -/
structure Vertex where
  id : Nat
  operator : Operator
  edges : List Edge

namespace Vertex

/-- A vertex whose edges were added in the order of its inputs. -/
def ofInputs (id : Nat) (operator : Operator) (inputs : List Nat) : Vertex :=
  ⟨id, operator, (inputs.mapIdx Edge.mk).reverse⟩

/-- Ids of the inputs, by position. -/
def inputs (vertex : Vertex) : List Nat :=
  (List.range vertex.edges.length).filterMap fun position =>
    (vertex.edges.find? (·.position == position)).map (·.input)

/-- Points the edges to `origin` at `replacement`, one after the other from the
newest on, so that the one redirected last becomes the newest. -/
def redirect (vertex : Vertex) (origin replacement : Nat) : Vertex :=
  let moved := vertex.edges.filter (·.input == origin)
  let kept := vertex.edges.filter (·.input != origin)
  { vertex with edges := moved.reverse.map ({ · with input := replacement }) ++ kept }

end Vertex

/-- A plan as vertices, every one after its inputs, with the id of the root. -/
structure PlanDag where
  vertices : List Vertex
  root : Nat

namespace PlanDag

mutual
/-- Adds the nodes of a plan whose keys are not among the imported ones, inputs
first. The id of a vertex is its place in the list. -/
def importNode (imported : List (Nat × Vertex)) : PlanNode → List (Nat × Vertex)
  | ⟨key, _, operator, inputs, _⟩ =>
    if (imported.map (·.1)).contains key then imported
    else
      let below := importAll imported inputs
      let ids := inputs.map fun input => (below.map (·.1)).idxOf input.key
      below ++ [(key, .ofInputs below.length operator ids)]

/-- Adds the nodes of several plans from left to right. -/
def importAll (imported : List (Nat × Vertex)) : List PlanNode → List (Nat × Vertex)
  | [] => imported
  | node :: rest => importAll (importNode imported node) rest
end

/-- The graph of a plan: one vertex per node, numbered from zero so that every
node has a greater id than its inputs. -/
def ofPlan (plan : PlanNode) : PlanDag :=
  let vertices := (importNode [] plan).map (·.2)
  ⟨vertices, vertices.length - 1⟩

/-- Number of vertices. -/
def size (graph : PlanDag) : Nat := graph.vertices.length

/-- Ids of the vertices. -/
def ids (graph : PlanDag) : List Nat := graph.vertices.map (·.id)

/-- Builds the node of a vertex over the nodes built so far. -/
def exportVertex (firstKey : Nat) (built : List PlanNode) (vertex : Vertex) :
    Except PlanError PlanNode :=
  let inputs := vertex.inputs.filterMap fun id => built.find? (·.id == id)
  PlanNode.build (firstKey + vertex.id) vertex.id vertex.operator inputs

/-- The nodes of all vertices, latest first. Each vertex gives one node, whose
key is `firstKey` plus its id. -/
def nodes (graph : PlanDag) (firstKey : Nat) : Except PlanError (List PlanNode) :=
  graph.vertices.foldlM (fun built vertex => do
    return (← exportVertex firstKey built vertex) :: built) []

/-- The plan that the graph stands for. -/
def toPlan (graph : PlanDag) (firstKey : Nat) : Except PlanError PlanNode := do
  match (← graph.nodes firstKey).find? (·.id == graph.root) with
  | some node => .ok node
  | none => .error (.malformed .emptyPlan)

/-- Takes the vertices that the edges lead to out of `unmarked`. Gives them in
the order of the edges, and the vertices that are left. -/
def mark : List Edge → (unmarked : List Vertex) → List Vertex × List Vertex
  | [], unmarked => ([], unmarked)
  | edge :: edges, unmarked =>
    match unmarked.find? (·.id == edge.input) with
    | none => mark edges unmarked
    | some vertex =>
      let (found, left) := mark edges (unmarked.eraseP (·.id == edge.input))
      (vertex :: found, left)

theorem length_mark (edges : List Edge) (unmarked : List Vertex) :
    (mark edges unmarked).1.length + (mark edges unmarked).2.length = unmarked.length := by
  induction edges generalizing unmarked with
  | nil => simp [mark]
  | cons edge edges ih =>
    rw [mark]
    split
    · exact ih unmarked
    · rename_i vertex found
      have present := List.mem_of_find?_eq_some found
      have matching := List.find?_some found
      have erased : (unmarked.eraseP (·.id == edge.input)).length = unmarked.length - 1 :=
        List.length_eraseP_of_mem present matching
      have := List.length_pos_of_mem present
      have := ih (unmarked.eraseP (·.id == edge.input))
      simp only [List.length_cons]
      omega

/-- Breadth-first search: vertices are marked when they enter the queue. -/
def search (queue unmarked : List Vertex) : List Vertex :=
  match queue with
  | [] => []
  | vertex :: queue =>
    let marked := mark vertex.edges unmarked
    vertex :: search (queue ++ marked.1) marked.2
termination_by queue.length + unmarked.length
decreasing_by
  have := length_mark vertex.edges unmarked
  simp only [List.length_append, List.length_cons]
  omega

/-- The vertices in breadth-first order from the root. -/
def breadthFirst (graph : PlanDag) : List Vertex :=
  let start := mark [⟨0, graph.root⟩] graph.vertices
  search start.1 start.2

mutual
/-- Adds vertices for the nodes of a replacement that have none yet, inputs
first. Nodes whose id is present stand for the vertex with this id. -/
def newVertices (present : List Nat) (added : List Vertex) : PlanNode → List Vertex
  | ⟨_, id, operator, inputs, _⟩ =>
    if present.contains id || (added.map (·.id)).contains id then added
    else
      newVerticesAll present added inputs ++ [.ofInputs id operator (inputs.map (·.id))]

/-- Adds vertices for the new nodes of several replacements. -/
def newVerticesAll (present : List Nat) (added : List Vertex) : List PlanNode → List Vertex
  | [] => added
  | node :: rest => newVerticesAll present (newVertices present added node) rest
end

/-- Keeps a vertex if it is needed, and then needs its inputs. -/
def keepNeeded (vertex : Vertex) (state : List Vertex × List Nat) : List Vertex × List Nat :=
  if state.2.contains vertex.id then
    (vertex :: state.1, vertex.edges.map (·.input) ++ state.2)
  else
    state

/-- Drops the vertices that the root does not reach. One pass from the root down
is enough, since every vertex comes after its inputs. -/
def prune (graph : PlanDag) : PlanDag :=
  { graph with vertices := (graph.vertices.foldr keepNeeded ([], [graph.root])).1 }

/-- Puts a replacement in the place of the vertex `origin`. Its new vertices
stand right after `origin`, below everything that reads `origin`. A replacement
that is `origin` itself changes nothing. -/
def replace (graph : PlanDag) (origin : Nat) (replacement : PlanNode) : PlanDag :=
  if replacement.id = origin then graph
  else
    let added := newVertices graph.ids [] replacement
    let vertices := graph.vertices.flatMap fun vertex =>
      if vertex.id = origin then vertex :: added
      else [vertex.redirect origin replacement.id]
    let root := if graph.root = origin then replacement.id else graph.root
    prune ⟨vertices, root⟩

end PlanDag

end QueryPlan
