import Mathlib.Data.List.Forall2
import QueryPlan.Proofs.Graph.Search
import QueryPlan.Proofs.Store.View

/-!
# Searching a store

The search through the slots of a store goes along with the search through the
vertices of its working graph, whatever the order of the unmarked vertices. So it
visits exactly what the root reaches, in the same order.
-/

namespace QueryPlan

namespace PlanDag

/-- The order of the unmarked vertices does not matter. -/
theorem mark_congr (edges : List Edge) {first second : List Vertex} (perm : first.Perm second)
    (nodup : (first.map (·.id)).Nodup) :
    (mark edges first).1 = (mark edges second).1 ∧
      (mark edges first).2.Perm (mark edges second).2 := by
  induction edges generalizing first second with
  | nil => exact ⟨rfl, perm⟩
  | cons edge edges ih =>
      rw [mark, mark]
      cases found : first.find? (·.id == edge.input) with
      | none =>
          have absent : second.find? (·.id == edge.input) = none := by
            rw [List.find?_eq_none] at found ⊢
            exact fun vertex member => found vertex (perm.mem_iff.mpr member)
          rw [absent]
          exact ih perm nodup
      | some vertex =>
          have id : (vertex.id == edge.input) = true := (List.find?_some found :)
          have same : second.find? (·.id == edge.input) = some vertex := by
            refine find?_eq_some_of_unique (perm.mem_iff.mp (List.mem_of_find?_eq_some found)) id ?_
            intro other member matching
            exact List.inj_on_of_nodup_map nodup (perm.mem_iff.mpr member)
              (List.mem_of_find?_eq_some found) ((eq_of_beq matching).trans (eq_of_beq id).symm)
          have left := perm_cons_eraseP found
          have rest := List.Perm.cons_inv
            (left.trans (perm.trans (perm_cons_eraseP same).symm))
          have apart := (left.map (·.id)).nodup_iff.mpr nodup
          rw [List.map_cons, List.nodup_cons] at apart
          rw [same]
          obtain ⟨marked, unmarked⟩ := ih rest apart.2
          exact ⟨congrArg (vertex :: ·) marked, unmarked⟩

theorem search_congr (queue : List Vertex) {first second : List Vertex} (perm : first.Perm second)
    (nodup : (first.map (·.id)).Nodup) : search queue first = search queue second := by
  induction queue, first using search.induct generalizing second with
  | case1 unmarked => rw [search, search]
  | case2 unmarked vertex queue marked =>
      rename_i ih
      obtain ⟨same, rest⟩ := mark_congr vertex.edges perm nodup
      rw [search, search, ih rest (nodup_unmarked nodup), same]

theorem breadthFirst_congr {vertices others : List Vertex} (perm : vertices.Perm others)
    (nodup : (vertices.map (·.id)).Nodup) (root : Nat) :
    breadthFirst ⟨vertices, root⟩ = breadthFirst ⟨others, root⟩ := by
  obtain ⟨same, rest⟩ := mark_congr [⟨0, root⟩] perm nodup
  rw [breadthFirst, breadthFirst, same]
  exact search_congr _ rest (nodup_unmarked nodup)

end PlanDag

namespace Store

variable {store : Store}

/-- Whether a vertex is the one in a slot. -/
def Shows (store : Store) (slot : Nat) (vertex : Vertex) : Prop :=
  ∃ entry, (slot, entry) ∈ store.nodes.members ∧ store.vertexAt slot entry = vertex

theorem Shows.id {slot : Nat} {vertex : Vertex} (shows : store.Shows slot vertex) :
    slot ∈ store.slots ∧ vertex.id = store.idAt slot := by
  obtain ⟨entry, member, rfl⟩ := shows
  exact ⟨mem_slots.mpr ⟨entry, member⟩, (idAt_of_mem member).symm⟩

theorem Shows.edges {slot : Nat} {vertex : Vertex} (shows : store.Shows slot vertex) :
    vertex.edges = store.edgesAt slot := by
  obtain ⟨entry, _, rfl⟩ := shows
  rfl

/-- The vertices stand in the order of the slots. -/
theorem shows_vertices (store : Store) : List.Forall₂ store.Shows store.slots store.vertices := by
  rw [slots, Slots.numbers, vertices, List.forall₂_map_left_iff, List.forall₂_map_right_iff,
    List.forall₂_same]
  exact fun member listed => ⟨member.2, listed, rfl⟩

namespace Linked

variable {unmarked : List Nat} {vertices : List Vertex}

/-- A slot is among some others when the vertex with its id is among theirs. -/
theorem shows_erase (linked : store.Linked) (shows : List.Forall₂ store.Shows unmarked vertices)
    {slot : Nat} (taken : slot ∈ store.slots) :
    (slot ∉ unmarked ∧ vertices.find? (·.id == store.idAt slot) = none) ∨
      slot ∈ unmarked ∧ ∃ vertex, vertices.find? (·.id == store.idAt slot) = some vertex ∧
        store.Shows slot vertex ∧ List.Forall₂ store.Shows (unmarked.erase slot)
          (vertices.eraseP (·.id == store.idAt slot)) := by
  induction shows with
  | nil => exact .inl ⟨List.not_mem_nil, rfl⟩
  | @cons other vertex unmarked vertices first rest ih =>
      obtain ⟨otherTaken, id⟩ := first.id
      by_cases same : other = slot
      · subst same
        refine .inr ⟨List.mem_cons_self, vertex, by simp [id], first, ?_⟩
        simpa [id] using rest
      · have differs : vertex.id ≠ store.idAt slot := by
          rw [id]
          exact fun equal => same (linked.slot_inj otherTaken taken equal)
        rcases ih with ⟨absent, none⟩ | ⟨present, found, some, shows, left⟩
        · exact .inl ⟨by simp [Ne.symm same, absent], by simp [differs, none]⟩
        · refine .inr ⟨List.mem_cons_of_mem _ present, found, by simp [differs, some], shows, ?_⟩
          simpa [differs, same] using List.Forall₂.cons first left

/-- Marking goes along. -/
theorem shows_mark (linked : store.Linked) (shows : List.Forall₂ store.Shows unmarked vertices)
    (arcs : List Arc) (known : ∀ arc ∈ arcs, arc.target ∈ store.slots) :
    let marked := mark (arcs.map (·.target)) unmarked
    let others := PlanDag.mark (arcs.map fun arc => ⟨arc.position, store.idAt arc.target⟩) vertices
    List.Forall₂ store.Shows marked.1 others.1 ∧ List.Forall₂ store.Shows marked.2 others.2 := by
  induction arcs generalizing unmarked vertices with
  | nil => exact ⟨.nil, shows⟩
  | cons arc arcs ih =>
      obtain ⟨taken, rest⟩ := List.forall_mem_cons.mp known
      simp only [List.map_cons, mark, PlanDag.mark]
      rcases linked.shows_erase shows taken with
        ⟨absent, none⟩ | ⟨present, vertex, found, first, left⟩
      · rw [if_neg absent, none]
        exact ih shows rest
      · rw [if_pos present, found]
        obtain ⟨marked, unmarked⟩ := ih left rest
        exact ⟨.cons first marked, unmarked⟩

/-- The search goes along. -/
theorem shows_search (linked : store.Linked) {queue : List Nat} {front : List Vertex}
    (queued : List.Forall₂ store.Shows queue front)
    (shows : List.Forall₂ store.Shows unmarked vertices) :
    List.Forall₂ store.Shows (search store.targets queue unmarked)
      (PlanDag.search front vertices) := by
  induction queue, unmarked using search.induct store.targets generalizing front vertices with
  | case1 unmarked =>
      cases queued
      rw [search, PlanDag.search]
      exact .nil
  | case2 unmarked slot queue marked =>
      rename_i ih
      cases queued with
      | @cons _ vertex _ front first rest =>
          have arcs : ∀ arc ∈ store.arcsFrom slot, arc.target ∈ store.slots :=
            fun arc => linked.target_mem
          obtain ⟨found, left⟩ := linked.shows_mark shows (store.arcsFrom slot) arcs
          rw [search, PlanDag.search, first.edges]
          exact .cons first (ih (List.rel_append rest found) left)

theorem shows_breadthFirst (linked : store.Linked) (root : store.root ∈ store.slots) :
    List.Forall₂ store.Shows store.breadthFirst
      (PlanDag.breadthFirst ⟨store.vertices, store.idAt store.root⟩) := by
  rcases linked.shows_erase store.shows_vertices root with
    ⟨absent, _⟩ | ⟨_, vertex, found, first, left⟩
  · exact absurd root absent
  · rw [breadthFirst, PlanDag.breadthFirst, PlanDag.mark, found]
    exact linked.shows_search (.cons first .nil) left

end Linked

/-- An arc leads from a slot to another one when the vertex reads the other vertex. -/
theorem Linked.reads_iff (linked : store.Linked) {vertices : List Vertex}
    (perm : store.vertices.Perm vertices) (ordered : Ordered [] vertices) {slot target : Nat}
    (taken : slot ∈ store.slots) (targetTaken : target ∈ store.slots) :
    Reads vertices (store.idAt slot) (store.idAt target) ↔ target ∈ store.targets slot := by
  obtain ⟨entry, member⟩ := mem_slots.mp taken
  have present := perm.mem_iff.mp (vertexAt_mem_vertices member)
  have inputs : store.idAt target ∈ (store.vertexAt slot entry).inputs ↔
      target ∈ store.targets slot := by
    rw [← (ordered.wired present).mem_map_input, vertexAt, edgesAt, List.map_map, targets,
      List.mem_map, List.mem_map]
    constructor
    · rintro ⟨arc, leads, same⟩
      exact ⟨arc, leads, linked.slot_inj (linked.target_mem leads) targetTaken same⟩
    · rintro ⟨arc, leads, rfl⟩
      exact ⟨arc, leads, rfl⟩
  rw [← inputs]
  constructor
  · rintro ⟨vertex, listed, same, isInput⟩
    obtain rfl := ordered.eq_of_id listed present (same.trans (idAt_of_mem member))
    exact isInput
  · exact fun isInput => ⟨_, present, (idAt_of_mem member).symm, isInput⟩

/-- The search through a store visits the vertices of its graph in their order. -/
theorem Linked.map_breadthFirst (linked : store.Linked) (root : store.root ∈ store.slots)
    {vertices : List Vertex} (perm : store.vertices.Perm vertices) :
    store.breadthFirst.map store.idAt =
      (PlanDag.breadthFirst ⟨vertices, store.idAt store.root⟩).map (·.id) := by
  have shows := linked.shows_breadthFirst root
  rw [PlanDag.breadthFirst_congr perm linked.nodup_ids] at shows
  rw [← List.forall₂_eq_eq_eq, List.forall₂_map_left_iff, List.forall₂_map_right_iff]
  exact shows.imp fun _ _ shows => shows.id.2.symm

theorem Linked.breadthFirst_subset (linked : store.Linked) (root : store.root ∈ store.slots)
    {slot : Nat} (visited : slot ∈ store.breadthFirst) : slot ∈ store.slots := by
  have shows := linked.shows_breadthFirst root
  obtain ⟨index, bound, rfl⟩ := List.getElem_of_mem visited
  exact (shows.get bound (shows.length_eq ▸ bound)).id.1

/-- The search visits the slots that the root reaches, when the vertices can be
ordered. -/
theorem Linked.mem_breadthFirst (linked : store.Linked) (root : store.root ∈ store.slots)
    {vertices : List Vertex} (perm : store.vertices.Perm vertices) (ordered : Ordered [] vertices)
    {slot : Nat} : slot ∈ store.breadthFirst ↔
      slot ∈ store.slots ∧ Reaches vertices (store.idAt store.root) (store.idAt slot) := by
  have ids := linked.map_breadthFirst root perm
  have visited (id : Nat) : id ∈ store.breadthFirst.map store.idAt ↔
      id ∈ vertices.map (·.id) ∧ Reaches vertices (store.idAt store.root) id := by
    rw [ids, List.mem_map]
    constructor
    · rintro ⟨vertex, found, rfl⟩
      obtain ⟨present, reached⟩ := (PlanDag.mem_breadthFirst_iff ordered).mp found
      exact ⟨List.mem_map_of_mem present, reached⟩
    · rintro ⟨listed, reached⟩
      obtain ⟨vertex, present, rfl⟩ := List.mem_map.mp listed
      exact ⟨vertex, (PlanDag.mem_breadthFirst_iff ordered).mpr ⟨present, reached⟩, rfl⟩
  have listed (taken : slot ∈ store.slots) : store.idAt slot ∈ vertices.map (·.id) := by
    rw [← (perm.map (·.id)).mem_iff, map_id_vertices]
    exact List.mem_map_of_mem taken
  constructor
  · intro found
    exact ⟨linked.breadthFirst_subset root found, ((visited _).mp (List.mem_map_of_mem found)).2⟩
  · rintro ⟨taken, reached⟩
    obtain ⟨other, found, same⟩ := List.mem_map.mp ((visited _).mpr ⟨listed taken, reached⟩)
    rwa [← linked.slot_inj (linked.breadthFirst_subset root found) taken same]

end Store

end QueryPlan
