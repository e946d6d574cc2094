import QueryPlan.Proofs.Graph.Labelling
import QueryPlan.Proofs.Store.Search

/-!
# Exporting a store

The arcs of a slot that holds a vertex of an ordered graph are as many as the vertex
has inputs, and each position is that of one arc. So their order by position, whatever
their age, is that of the inputs, and the export builds every node over the nodes of
its inputs.
-/

namespace QueryPlan

/-- Edges in the order of their positions are those of the inputs. -/
theorem Vertex.WiredTo.eq_of_sorted {vertex : Vertex} {inputs : List Nat}
    (wired : vertex.WiredTo inputs) {sorted : List Edge} (perm : sorted.Perm vertex.edges)
    (increasing : sorted.Pairwise (·.position ≤ ·.position)) : sorted = inputs.mapIdx Edge.mk := by
  have wiring : sorted.Perm (inputs.mapIdx Edge.mk) := perm.trans wired
  have indexed : (inputs.mapIdx Edge.mk).Pairwise (·.position ≤ ·.position) := by
    rw [List.pairwise_iff_getElem]
    intro i j _ _ before
    rw [List.getElem_mapIdx, List.getElem_mapIdx]
    exact Nat.le_of_lt before
  refine wiring.eq_of_pairwise ?_ increasing indexed
  intro left right leftMember rightMember forth back
  have leftInput := wired.mem_edges.mp (perm.mem_iff.mp leftMember)
  have rightInput := wired.mem_edges.mp (wired.mem_iff.mpr rightMember)
  obtain ⟨position, leftTarget⟩ := left
  obtain ⟨other, rightTarget⟩ := right
  obtain rfl := Nat.le_antisymm forth back
  obtain rfl := Option.some.inj (leftInput.symm.trans rightInput)
  rfl

namespace Store

variable {store : Store} {slot : Nat}

section Inputs

variable {entry : Entry} {inputs : List Nat}

theorem mem_sortedArcs {arc : Arc} : arc ∈ store.sortedArcs slot ↔ arc ∈ store.arcsFrom slot :=
  (List.mergeSort_perm _ _).mem_iff

theorem mem_inputsOf {target : Nat} :
    target ∈ store.inputsOf slot ↔ target ∈ store.targets slot := by
  simp only [inputsOf, targets, List.mem_map, mem_sortedArcs]

/-- The arcs by position are the edges to the inputs. -/
theorem map_sortedArcs (wired : (store.vertexAt slot entry).WiredTo inputs) :
    (store.sortedArcs slot).map (fun arc => ⟨arc.position, store.idAt arc.target⟩) =
      inputs.mapIdx Edge.mk := by
  refine wired.eq_of_sorted ((List.mergeSort_perm _ _).map _) ?_
  rw [List.pairwise_map]
  have sorted := @List.pairwise_mergeSort _
    (fun left right : Arc => decide (left.position ≤ right.position))
    (fun first second third => by simpa using Nat.le_trans)
    (fun first second => by simpa using Nat.le_total _ _) (store.arcsFrom slot)
  exact sorted.imp of_decide_eq_true

/-- The order by position recovers the inputs. -/
theorem map_inputsOf (wired : (store.vertexAt slot entry).WiredTo inputs) :
    (store.inputsOf slot).map store.idAt = inputs := by
  have edges := congrArg (List.map (·.input)) (map_sortedArcs wired)
  rw [List.map_map] at edges
  rw [inputsOf, List.map_map]
  refine edges.trans (List.ext_getElem? fun position => ?_)
  rw [List.getElem?_map, List.getElem?_mapIdx]
  cases inputs[position]? <;> rfl

/-- The arcs from a slot are at the positions of the inputs, one at each. -/
theorem perm_positions (wired : (store.vertexAt slot entry).WiredTo inputs) :
    ((store.arcsFrom slot).map (·.position)).Perm (List.range inputs.length) := by
  have edges := wired.map (·.position)
  have positions : (inputs.mapIdx Edge.mk).map (·.position) = List.range inputs.length := by
    apply List.ext_getElem
    · simp
    · simp
  rw [positions, vertexAt, edgesAt, List.map_map] at edges
  exact edges

/-- The arc to the input at a position is at this position. -/
theorem getElem?_inputsOf (wired : (store.vertexAt slot entry).WiredTo inputs)
    {position target : Nat} :
    (store.inputsOf slot)[position]? = some target ↔
      ⟨slot, target, position⟩ ∈ store.arcsFrom slot := by
  have placed {index : Nat} {arc : Arc} (found : (store.sortedArcs slot)[index]? = some arc) :
      arc.position = index ∧ arc.source = slot := by
    have edge := congrArg (·[index]?) (map_sortedArcs wired)
    simp only [List.getElem?_map, List.getElem?_mapIdx, found, Option.map_some] at edge
    obtain ⟨_, _, same⟩ := Option.map_eq_some_iff.mp edge.symm
    have leads := mem_sortedArcs.mp (List.mem_of_getElem? found)
    exact ⟨(congrArg Edge.position same).symm, eq_of_beq (List.mem_filter.mp leads).2⟩
  rw [inputsOf, List.getElem?_map, Option.map_eq_some_iff]
  constructor
  · rintro ⟨⟨source, _, index⟩, found, rfl⟩
    obtain ⟨rfl, rfl⟩ := placed found
    exact mem_sortedArcs.mp (List.mem_of_getElem? found)
  · intro leads
    obtain ⟨index, found⟩ := List.mem_iff_getElem?.mp (mem_sortedArcs.mpr leads)
    obtain ⟨rfl, _⟩ := placed found
    exact ⟨_, found, rfl⟩

end Inputs

section Build

variable {graph : PlanDag} {firstKey : Nat} {node : Nat → PlanNode}

/-- Whether everything that is built is what its slot stands for. -/
def Faithful (store : Store) (node : Nat → PlanNode) (built : Built) : Prop :=
  ∀ slot plan, built.lookup slot = some plan → plan = node (store.idAt slot)

/-- Whether a way of building gives for a slot what it stands for. -/
def Builds (store : Store) (node : Nat → PlanNode)
    (build : Built → Nat → Except Failure (PlanNode × Built)) (slot : Nat) : Prop :=
  ∀ built, store.Faithful node built →
    ∃ after, build built slot = .ok (node (store.idAt slot), after) ∧ store.Faithful node after

theorem exportAll_eq {build : Built → Nat → Except Failure (PlanNode × Built)} {slots : List Nat}
    (builds : ∀ slot ∈ slots, store.Builds node build slot) {built : Built}
    (faithful : store.Faithful node built) :
    ∃ after,
      exportAll build built slots = .ok (slots.map fun slot => node (store.idAt slot), after) ∧
      store.Faithful node after := by
  induction slots generalizing built with
  | nil => exact ⟨built, rfl, faithful⟩
  | cons slot rest ih =>
      obtain ⟨first, others⟩ := List.forall_mem_cons.mp builds
      obtain ⟨middle, done, middleFaithful⟩ := first built faithful
      obtain ⟨after, rest, afterFaithful⟩ := ih others middleFaithful
      refine ⟨after, ?_, afterFaithful⟩
      rw [exportAll, done]
      simp only [bind, Except.bind, rest]
      rfl

/-- The node of a slot is the one that is built over the nodes of its inputs. -/
theorem build_entry (implements : store.Implements graph)
    (represents : Represents graph firstKey node) {entry : Entry}
    (member : (slot, entry) ∈ store.nodes.members) :
    PlanNode.build (firstKey + entry.id) entry.id entry.operator
      ((store.inputsOf slot).map fun input => node (store.idAt input)) = .ok (node entry.id) := by
  have present := implements.vertexAt_mem member
  have labelled := represents.labels _ present
  rw [← map_inputsOf (represents.ordered.wired present), List.map_map] at labelled
  exact labelled

/-- A vertex with few others before it is built. The induction is on the depth, and the
inputs of the vertex stand before it. -/
theorem builds_exportSlot (implements : store.Implements graph)
    (represents : Represents graph firstKey node) {depth : Nat} {before rest : List Vertex}
    {vertex : Vertex} (split : graph.vertices = before ++ vertex :: rest)
    (short : before.length < depth) (taken : slot ∈ store.slots)
    (id : store.idAt slot = vertex.id) :
    store.Builds node (store.exportSlot firstKey depth) slot := by
  induction depth generalizing before vertex rest slot with
  | zero => exact absurd short (Nat.not_lt_zero _)
  | succ depth ih =>
      intro built faithful
      rw [exportSlot]
      cases found : built.lookup slot with
      | some plan =>
          obtain rfl := faithful slot plan found
          exact ⟨built, rfl, faithful⟩
      | none =>
          obtain ⟨entry, member⟩ := mem_slots.mp taken
          have listed : vertex ∈ graph.vertices :=
            split ▸ List.mem_append_right before List.mem_cons_self
          obtain rfl := represents.ordered.eq_of_id (implements.vertexAt_mem member) listed
            ((idAt_of_mem member).symm.trans id)
          -- Fewer vertices stand before an input, so less depth is enough for it.
          have inputs : ∀ input ∈ store.inputsOf slot,
              store.Builds node (store.exportSlot firstKey depth) input := by
            intro input isInput
            have reads := List.mem_map_of_mem (f := store.idAt) isInput
            rw [map_inputsOf (represents.ordered.wired listed)] at reads
            have ordered := represents.ordered
            rw [split, Ordered.append_iff, List.append_nil] at ordered
            have earlier := List.mem_reverse.mp (ordered.2.2.2.1 _ reads)
            obtain ⟨other, isBefore, same⟩ := List.mem_map.mp earlier
            obtain ⟨first, between, rfl⟩ := List.append_of_mem isBefore
            refine ih (by rw [split, List.append_assoc, List.cons_append]) ?_
              (implements.linked.taken_of_mem (mem_inputsOf.mp isInput)).2 same.symm
            simp only [List.length_append, List.length_cons] at short
            omega
          obtain ⟨after, below, afterFaithful⟩ := exportAll_eq inputs faithful
          have get : store.nodes.get? slot = some entry := Slots.get?_eq_some_iff.mpr member
          refine ⟨(slot, node (store.idAt slot)) :: after, ?_, ?_⟩
          · simp only [below, bind, Except.bind, get, build_entry implements represents member,
              idAt_of_mem member]
          · intro other plan given
            rw [List.lookup_cons] at given
            split at given
            · rename_i same
              rw [eq_of_beq same]
              exact (Option.some.inj given).symm
            · exact afterFaithful other plan given

/-- The export of a slot never fails, and gives the node of its id. -/
theorem toPlan_eq (implements : store.Implements graph)
    (represents : Represents graph firstKey node) (taken : slot ∈ store.slots) :
    store.toPlan firstKey slot = .ok (node (store.idAt slot)) := by
  obtain ⟨entry, member⟩ := mem_slots.mp taken
  obtain ⟨before, rest, split⟩ := List.append_of_mem (implements.vertexAt_mem member)
  have size : store.slots.length = graph.vertices.length := by
    rw [← implements.vertices.length_eq, vertices, slots, Slots.numbers, List.length_map,
      List.length_map]
  have short : before.length < store.slots.length := by
    rw [size, split, List.length_append, List.length_cons]
    omega
  obtain ⟨after, built, _⟩ := builds_exportSlot implements represents split short taken
    (idAt_of_mem member) [] (by simp [Faithful])
  rw [toPlan, built]
  rfl

end Build

end Store

end QueryPlan
