import QueryPlan.Proofs.Graph.Order
import QueryPlan.Proofs.Store.Basic

/-!
# The working graph of a store

A store is read as a working graph by naming every slot by the plan id in it
(`Store.vertices`). The parts of a store fit together when arcs lie between slots
that are taken and when the index is the inverse of this naming (`Store.Linked`).
Nodes that are added leave everything else as it is (`Store.Extends`).
-/

namespace QueryPlan.Store

/-- The plan id in a slot. -/
def idAt (store : Store) (slot : Nat) : Nat := ((store.nodes.get? slot).map (·.id)).getD 0

/-- The edges of a slot, between plan ids. -/
def edgesAt (store : Store) (slot : Nat) : List Edge :=
  (store.arcsFrom slot).map fun arc => ⟨arc.position, store.idAt arc.target⟩

/-- The vertex in a slot. -/
def vertexAt (store : Store) (slot : Nat) (entry : Entry) : Vertex :=
  ⟨entry.id, entry.operator, store.edgesAt slot⟩

/-- The vertices of all slots, the newest first. -/
def vertices (store : Store) : List Vertex :=
  store.nodes.members.map fun member => store.vertexAt member.1 member.2

/-- Whether arcs lie between slots that are taken, and the index leads from an id to
the slot that has it and from no other id to a slot. -/
structure Linked (store : Store) : Prop where
  ends : ∀ arc ∈ store.arcs.contents, arc.source ∈ store.slots ∧ arc.target ∈ store.slots
  index : ∀ id slot, store.index id = some slot ↔
    ∃ operator, (slot, ⟨id, operator⟩) ∈ store.nodes.members

/-- Whether a store has the vertices of a working graph, in whatever slots. -/
structure Implements (store : Store) (graph : PlanDag) : Prop where
  linked : store.Linked
  vertices : store.vertices.Perm graph.vertices
  root : store.root ∈ store.slots
  rootId : store.idAt store.root = graph.root

/-- Whether a store is another one with `added` vertices, in the order in which they
came. -/
structure Extends (before after : Store) (added : List Vertex) : Prop where
  linked : after.Linked
  nodes : ∃ new, after.nodes.members = new ++ before.nodes.members
  arcs : ∃ new, after.arcs.members = new ++ before.arcs.members ∧
    ∀ entry ∈ new, entry.2.source ∉ before.slots
  root : after.root = before.root
  vertices : after.vertices = added.reverse ++ before.vertices

theorem idAt_of_mem {store : Store} {slot : Nat} {entry : Entry}
    (member : (slot, entry) ∈ store.nodes.members) : store.idAt slot = entry.id := by
  rw [idAt, Slots.get?_eq_some_iff.mpr member]
  rfl

theorem mem_slots {store : Store} {slot : Nat} :
    slot ∈ store.slots ↔ ∃ entry, (slot, entry) ∈ store.nodes.members :=
  Slots.mem_numbers

theorem vertexAt_mem_vertices {store : Store} {slot : Nat} {entry : Entry}
    (member : (slot, entry) ∈ store.nodes.members) :
    store.vertexAt slot entry ∈ store.vertices :=
  List.mem_map_of_mem (f := fun member => store.vertexAt member.1 member.2) member

theorem map_id_vertices (store : Store) :
    store.vertices.map (·.id) = store.slots.map store.idAt := by
  rw [vertices, slots, Slots.numbers, List.map_map, List.map_map]
  apply List.map_congr_left
  intro member listed
  exact (idAt_of_mem listed).symm

namespace Linked

variable {store : Store}

theorem empty : Linked Store.empty := by
  constructor
  · simp [Store.empty, Slots.empty, Slots.contents]
  · simp [Store.empty, Slots.empty]

/-- The index finds the slot of an id. -/
theorem index_idAt (linked : store.Linked) {slot : Nat} (taken : slot ∈ store.slots) :
    store.index (store.idAt slot) = some slot := by
  obtain ⟨⟨id, operator⟩, member⟩ := mem_slots.mp taken
  rw [idAt_of_mem member]
  exact (linked.index id slot).mpr ⟨operator, member⟩

theorem mem_of_index (linked : store.Linked) {id slot : Nat} (found : store.index id = some slot) :
    slot ∈ store.slots ∧ store.idAt slot = id := by
  obtain ⟨operator, member⟩ := (linked.index id slot).mp found
  exact ⟨mem_slots.mpr ⟨_, member⟩, idAt_of_mem member⟩

/-- Slots with one id are one slot. -/
theorem slot_inj (linked : store.Linked) {left right : Nat} (leftTaken : left ∈ store.slots)
    (rightTaken : right ∈ store.slots) (same : store.idAt left = store.idAt right) :
    left = right := by
  have found := linked.index_idAt leftTaken
  rw [same, linked.index_idAt rightTaken] at found
  exact (Option.some.inj found).symm

theorem nodup_ids (linked : store.Linked) : (store.vertices.map (·.id)).Nodup := by
  rw [map_id_vertices]
  exact store.nodes.nodup.map_on fun _ left _ right => linked.slot_inj left right

/-- An id is in the index when a vertex has it. -/
theorem index_eq_none_iff (linked : store.Linked) {id : Nat} :
    store.index id = none ↔ id ∉ store.vertices.map (·.id) := by
  rw [map_id_vertices, Option.eq_none_iff_forall_ne_some]
  constructor
  · intro absent listed
    obtain ⟨slot, taken, rfl⟩ := List.mem_map.mp listed
    exact absent slot (linked.index_idAt taken)
  · intro absent slot found
    obtain ⟨taken, rfl⟩ := linked.mem_of_index found
    exact absent (List.mem_map_of_mem taken)

/-- An arc leads to a slot that is taken. -/
theorem target_mem (linked : store.Linked) {slot : Nat} {arc : Arc}
    (leads : arc ∈ store.arcsFrom slot) : arc.target ∈ store.slots :=
  (linked.ends arc (List.mem_filter.mp leads).1).2

/-- An arc leads from a slot that is taken to another one. -/
theorem taken_of_mem (linked : store.Linked) {slot target : Nat}
    (listed : target ∈ store.targets slot) : slot ∈ store.slots ∧ target ∈ store.slots := by
  obtain ⟨arc, leads, rfl⟩ := List.mem_map.mp listed
  obtain ⟨member, source⟩ := List.mem_filter.mp leads
  rw [← eq_of_beq source]
  exact linked.ends arc member

end Linked

namespace Implements

variable {store : Store} {graph : PlanDag}

/-- The vertex in a slot is one of the graph. -/
theorem vertexAt_mem (implements : store.Implements graph) {slot : Nat} {entry : Entry}
    (member : (slot, entry) ∈ store.nodes.members) :
    store.vertexAt slot entry ∈ graph.vertices :=
  implements.vertices.mem_iff.mp (vertexAt_mem_vertices member)

/-- The ids of the graph are those in the slots. -/
theorem mem_ids (implements : store.Implements graph) {id : Nat} :
    id ∈ graph.ids ↔ ∃ slot ∈ store.slots, store.idAt slot = id := by
  rw [PlanDag.ids, ← (implements.vertices.map (·.id)).mem_iff, map_id_vertices, List.mem_map]

/-- The index has the ids of the graph. -/
theorem index_ne_none_iff (implements : store.Implements graph) {id : Nat} :
    store.index id ≠ none ↔ id ∈ graph.ids := by
  rw [ne_eq, implements.linked.index_eq_none_iff, Classical.not_not, PlanDag.ids,
    (implements.vertices.map (·.id)).mem_iff]

end Implements

/-- New arcs from other slots leave the arcs from a slot as they are. -/
theorem arcsFrom_of_members {before after : Store} {new : List (Nat × Arc)}
    (members : after.arcs.members = new ++ before.arcs.members) {slot : Nat}
    (others : ∀ entry ∈ new, entry.2.source ≠ slot) :
    after.arcsFrom slot = before.arcsFrom slot := by
  have none : (new.map (·.2)).filter (·.source == slot) = [] := by
    rw [List.filter_eq_nil_iff]
    intro arc listed same
    obtain ⟨entry, isNew, rfl⟩ := List.mem_map.mp listed
    exact others entry isNew (eq_of_beq same)
  rw [arcsFrom, arcsFrom, Slots.contents, Slots.contents, members, List.map_append,
    List.filter_append, none, List.nil_append]

namespace Extends

variable {before middle after : Store} {added first second : List Vertex}

theorem refl (linked : before.Linked) : Extends before before [] :=
  ⟨linked, ⟨[], rfl⟩, ⟨[], rfl, by simp⟩, rfl, rfl⟩

theorem mem_slots (extension : Extends before after added) {slot : Nat}
    (taken : slot ∈ before.slots) : slot ∈ after.slots := by
  obtain ⟨entry, member⟩ := Store.mem_slots.mp taken
  obtain ⟨new, members⟩ := extension.nodes
  exact Store.mem_slots.mpr ⟨entry, members ▸ List.mem_append_right new member⟩

theorem idAt (extension : Extends before after added) {slot : Nat} (taken : slot ∈ before.slots) :
    after.idAt slot = before.idAt slot := by
  obtain ⟨entry, member⟩ := Store.mem_slots.mp taken
  obtain ⟨new, members⟩ := extension.nodes
  rw [idAt_of_mem member]
  exact idAt_of_mem (members ▸ List.mem_append_right new member)

theorem trans (early : Extends before middle first) (late : Extends middle after second) :
    Extends before after (first ++ second) where
  linked := late.linked
  nodes := by
    obtain ⟨new, members⟩ := early.nodes
    obtain ⟨newer, further⟩ := late.nodes
    exact ⟨newer ++ new, by rw [further, members, List.append_assoc]⟩
  arcs := by
    obtain ⟨new, members, sources⟩ := early.arcs
    obtain ⟨newer, further, furtherSources⟩ := late.arcs
    refine ⟨newer ++ new, by rw [further, members, List.append_assoc], ?_⟩
    intro entry member
    rcases List.mem_append.mp member with isNewer | isNew
    · exact fun taken => furtherSources entry isNewer (early.mem_slots taken)
    · exact sources entry isNew
  root := late.root.trans early.root
  vertices := by rw [late.vertices, early.vertices, List.reverse_append, List.append_assoc]

end Extends

section AddNode

variable {store : Store} {id : Nat} {operator : Operator} {inputs : List Nat}

/-- The arcs of a node that is added. -/
theorem members_arcs_addNode (store : Store) (id : Nat) (operator : Operator) (inputs : List Nat) :
    ∃ new, (store.addNode id operator inputs).1.arcs.members = new ++ store.arcs.members ∧
      new.map (·.2) =
        (inputs.mapIdx fun position target => Arc.mk store.nodes.next target position).reverse :=
  Slots.members_addAll _ _

theorem idAt_addNode_self : (store.addNode id operator inputs).1.idAt store.nodes.next = id := by
  have member : (store.nodes.next, Entry.mk id operator) ∈
      (store.addNode id operator inputs).1.nodes.members := List.mem_cons_self
  exact idAt_of_mem member

theorem idAt_addNode {slot : Nat} (taken : slot ∈ store.slots) :
    (store.addNode id operator inputs).1.idAt slot = store.idAt slot := by
  obtain ⟨entry, member⟩ := mem_slots.mp taken
  rw [idAt_of_mem member]
  exact idAt_of_mem (List.mem_cons_of_mem _ member)

theorem linked_addNode (linked : store.Linked) (unused : store.index id = none)
    (known : ∀ input ∈ inputs, input ∈ store.slots) :
    (store.addNode id operator inputs).1.Linked where
  ends := by
    intro arc listed
    obtain ⟨new, members, contents⟩ := members_arcs_addNode store id operator inputs
    rw [Slots.contents, members, List.map_append, contents, List.mem_append, List.mem_reverse]
      at listed
    rcases listed with isNew | isOld
    · obtain ⟨position, bound, rfl⟩ := List.mem_mapIdx.mp isNew
      exact ⟨List.mem_cons_self, List.mem_cons_of_mem _ (known _ (List.getElem_mem bound))⟩
    · obtain ⟨source, target⟩ := linked.ends arc isOld
      exact ⟨List.mem_cons_of_mem _ source, List.mem_cons_of_mem _ target⟩
  index := by
    intro other slot
    change (if other = id then some store.nodes.next else store.index other) = some slot ↔ _
    have members : (store.addNode id operator inputs).1.nodes.members =
        (store.nodes.next, ⟨id, operator⟩) :: store.nodes.members := rfl
    simp only [members, List.mem_cons, Prod.mk.injEq, Entry.mk.injEq]
    split_ifs with same
    · subst same
      have absent : ∀ operator, (slot, Entry.mk other operator) ∉ store.nodes.members := by
        intro operator member
        rw [(linked.index other slot).mpr ⟨operator, member⟩] at unused
        simp at unused
      simp [absent, eq_comm]
    · simp [same, linked.index]

theorem arcsFrom_addNode (linked : store.Linked) :
    (store.addNode id operator inputs).1.arcsFrom store.nodes.next =
      (inputs.mapIdx fun position target => Arc.mk store.nodes.next target position).reverse := by
  obtain ⟨new, members, contents⟩ := members_arcs_addNode store id operator inputs
  rw [arcsFrom, Slots.contents, members, List.map_append, contents, List.filter_append]
  have own : ((inputs.mapIdx fun position target =>
      Arc.mk store.nodes.next target position).reverse).filter (·.source == store.nodes.next) =
      (inputs.mapIdx fun position target => Arc.mk store.nodes.next target position).reverse := by
    rw [List.filter_eq_self]
    intro arc listed
    obtain ⟨position, bound, rfl⟩ := List.mem_mapIdx.mp (List.mem_reverse.mp listed)
    exact beq_self_eq_true _
  have old : (store.arcs.members.map (·.2)).filter (·.source == store.nodes.next) = [] := by
    rw [List.filter_eq_nil_iff]
    intro arc listed same
    exact store.nodes.next_not_mem (eq_of_beq same ▸ (linked.ends arc listed).1)
  rw [own, old, List.append_nil]

/-- A node that is added becomes the vertex of its inputs. -/
theorem vertices_addNode (linked : store.Linked)
    (known : ∀ input ∈ inputs, input ∈ store.slots)
    (kept : ∀ slot ∈ store.slots,
      (store.addNode id operator inputs).1.arcsFrom slot = store.arcsFrom slot) :
    (store.addNode id operator inputs).1.vertices =
      .ofInputs id operator (inputs.map store.idAt) :: store.vertices := by
  have first : (store.addNode id operator inputs).1.vertexAt store.nodes.next ⟨id, operator⟩ =
      .ofInputs id operator (inputs.map store.idAt) := by
    rw [vertexAt, edgesAt, arcsFrom_addNode linked, Vertex.ofInputs, List.map_reverse,
      Vertex.mk.injEq]
    refine ⟨rfl, rfl, congrArg List.reverse ?_⟩
    apply List.ext_getElem?
    intro position
    simp only [List.getElem?_map, List.getElem?_mapIdx]
    cases found : inputs[position]? with
    | none => rfl
    | some input =>
        simp only [Option.map_some, idAt_addNode (known input (List.mem_of_getElem? found))]
  have others : ∀ member ∈ store.nodes.members,
      (store.addNode id operator inputs).1.vertexAt member.1 member.2 =
        store.vertexAt member.1 member.2 := by
    intro member listed
    have taken : member.1 ∈ store.slots := List.mem_map_of_mem listed
    rw [vertexAt, vertexAt, edgesAt, edgesAt, kept _ taken, Vertex.mk.injEq]
    refine ⟨rfl, rfl, List.map_congr_left ?_⟩
    intro arc leads
    rw [idAt_addNode (linked.target_mem leads)]
  have members : (store.addNode id operator inputs).1.nodes.members =
      (store.nodes.next, ⟨id, operator⟩) :: store.nodes.members := rfl
  rw [vertices, members, List.map_cons, first, List.map_congr_left others]
  rfl

theorem extends_addNode (linked : store.Linked) (unused : store.index id = none)
    (known : ∀ input ∈ inputs, input ∈ store.slots) :
    Extends store (store.addNode id operator inputs).1
      [.ofInputs id operator (inputs.map store.idAt)] := by
  obtain ⟨new, members, contents⟩ := members_arcs_addNode store id operator inputs
  have sources : ∀ entry ∈ new, entry.2.source ∉ store.slots := by
    intro entry isNew
    have listed := List.mem_map_of_mem (f := (·.2)) isNew
    rw [contents, List.mem_reverse] at listed
    obtain ⟨position, bound, same⟩ := List.mem_mapIdx.mp listed
    rw [← same]
    exact store.nodes.next_not_mem
  refine ⟨linked_addNode linked unused known, ⟨[_], rfl⟩, ⟨new, members, sources⟩, rfl,
    vertices_addNode linked known fun slot taken => ?_⟩
  exact arcsFrom_of_members members fun entry isNew same => sources entry isNew (same ▸ taken)

end AddNode

end QueryPlan.Store
