import QueryPlan.Proofs.Graph.Graft
import QueryPlan.Proofs.Store.Removal

/-!
# Splicing a plan into a store

A replacement is put into a store in three steps: its new nodes are added, the arcs
to the replaced slot are taken out and put back one by one with another end, and what
the root does not reach any more is removed. Each step does to the vertices what the
replacement in the working graph does to them.
-/

namespace QueryPlan.Store

open PlanNode (Occurs not_occurs_input)

section Insert

/-- Whether no node of a plan has the id of a node below it. -/
def Layered (plan : PlanNode) : Prop :=
  ∀ outer, Occurs outer plan → ∀ input ∈ outer.inputs, ∀ inner, Occurs inner input →
    inner.id ≠ outer.id

variable {plan : PlanNode} {present : List Nat}

mutual
/-- Inserting a part of a plan adds the vertices that it has not got yet. -/
theorem extends_insertNode (layered : Layered plan) {store : Store} (linked : store.Linked)
    {added : List Vertex}
    (known : ∀ id, id ∈ store.vertices.map (·.id) ↔ id ∈ present ∨ id ∈ added.map (·.id))
    (part : PlanNode) (inPlan : Occurs part plan) :
    ∃ new, PlanDag.newVertices present added part = added ++ new ∧
      Extends store (insertNode store part).1 new ∧
      (∀ vertex ∈ new, ∃ inner, Occurs inner part ∧ inner.id = vertex.id) ∧
      (insertNode store part).2 ∈ (insertNode store part).1.slots ∧
      (insertNode store part).1.idAt (insertNode store part).2 = part.id := by
  match part with
  | ⟨key, id, operator, inputs, schema⟩ =>
      rw [PlanDag.newVertices, insertNode]
      have listed : (present.contains id || (added.map (·.id)).contains id) = true ↔
          id ∈ store.vertices.map (·.id) := by
        rw [known, Bool.or_eq_true, List.contains_iff_mem, List.contains_iff_mem]
      cases found : store.index id with
      | some slot =>
          obtain ⟨taken, same⟩ := linked.mem_of_index found
          have member : id ∈ store.vertices.map (·.id) := by
            rw [map_id_vertices, ← same]
            exact List.mem_map_of_mem taken
          rw [if_pos (listed.mpr member)]
          exact ⟨[], (List.append_nil added).symm, .refl linked, by simp, taken, same⟩
      | none =>
          have absent := linked.index_eq_none_iff.mp found
          obtain ⟨new, below, extension, inside, taken, ids⟩ :=
            extends_insertAll layered linked known inputs
              fun input isInput => (Occurs.input isInput).trans inPlan
          -- No node below has the id, so it is still unused when the inputs are there.
          have unused : (insertAll store inputs).1.index id = none := by
            rw [extension.linked.index_eq_none_iff, extension.vertices, List.map_append,
              List.mem_append, not_or]
            refine ⟨?_, absent⟩
            intro again
            obtain ⟨vertex, isNew, same⟩ := List.mem_map.mp again
            obtain ⟨input, isInput, inner, occurs, equal⟩ :=
              inside vertex (List.mem_reverse.mp isNew)
            exact layered _ inPlan input isInput inner occurs (equal.trans same)
          have whole := @extends_addNode _ _ operator _ extension.linked unused taken
          rw [if_neg (mt listed.mp absent), below, List.append_assoc]
          refine ⟨_, rfl, ids ▸ extension.trans whole, ?_, List.mem_cons_self, idAt_addNode_self⟩
          intro vertex isNew
          rcases List.mem_append.mp isNew with earlier | last
          · obtain ⟨input, isInput, inner, occurs, equal⟩ := inside vertex earlier
            exact ⟨inner, .under isInput occurs, equal⟩
          · rw [List.mem_singleton.mp last]
            exact ⟨_, .here, rfl⟩

theorem extends_insertAll (layered : Layered plan) {store : Store} (linked : store.Linked)
    {added : List Vertex}
    (known : ∀ id, id ∈ store.vertices.map (·.id) ↔ id ∈ present ∨ id ∈ added.map (·.id))
    (parts : List PlanNode) (inPlan : ∀ part ∈ parts, Occurs part plan) :
    ∃ new, PlanDag.newVerticesAll present added parts = added ++ new ∧
      Extends store (insertAll store parts).1 new ∧
      (∀ vertex ∈ new, ∃ part ∈ parts, ∃ inner, Occurs inner part ∧ inner.id = vertex.id) ∧
      (∀ slot ∈ (insertAll store parts).2, slot ∈ (insertAll store parts).1.slots) ∧
      (insertAll store parts).2.map (insertAll store parts).1.idAt = parts.map (·.id) := by
  match parts with
  | [] => exact ⟨[], (List.append_nil added).symm, .refl linked, by simp, by simp [insertAll], rfl⟩
  | part :: rest =>
      obtain ⟨first, firstAdded, extension, inside, taken, id⟩ :=
        extends_insertNode layered linked known part (inPlan part List.mem_cons_self)
      have knownThen : ∀ id, id ∈ (insertNode store part).1.vertices.map (·.id) ↔
          id ∈ present ∨ id ∈ (added ++ first).map (·.id) := by
        intro id
        rw [extension.vertices, List.map_append, List.mem_append, known, List.map_append,
          List.mem_append, List.map_reverse, List.mem_reverse]
        tauto
      obtain ⟨others, othersAdded, further, othersInside, othersTaken, ids⟩ :=
        extends_insertAll layered extension.linked knownThen rest
          fun other member => inPlan other (List.mem_cons_of_mem _ member)
      rw [PlanDag.newVerticesAll, firstAdded, othersAdded, List.append_assoc]
      refine ⟨_, rfl, extension.trans further, ?_, ?_, ?_⟩
      · intro vertex isNew
        rcases List.mem_append.mp isNew with early | late
        · exact ⟨part, List.mem_cons_self, inside vertex early⟩
        · obtain ⟨other, member, inner⟩ := othersInside vertex late
          exact ⟨other, List.mem_cons_of_mem _ member, inner⟩
      · exact List.forall_mem_cons.mpr ⟨further.mem_slots taken, othersTaken⟩
      · simp only [insertAll, List.map_cons, ids, further.idAt taken, id]
end

end Insert

section Redirect

variable {before inserted : Store} {added : List Vertex} {slot target : Nat}

/-- Arcs that are put back one by one come before the others, the last one first. -/
theorem members_redirect {arcs : Slots Arc} {moved : List (Nat × Arc)}
    (nodup : (moved.map (·.1)).Nodup) (listed : ∀ entry ∈ moved, entry ∈ arcs.members) :
    (redirect arcs target moved).members =
      moved.reverse.map (fun entry => (entry.1, { entry.2 with target })) ++
        arcs.members.filter (·.1 ∉ moved.map (·.1)) := by
  induction moved generalizing arcs with
  | nil => simp [redirect]
  | cons entry rest ih =>
      obtain ⟨first, others⟩ := List.forall_mem_cons.mp listed
      obtain ⟨apart, restNodup⟩ := List.nodup_cons.mp nodup
      have exchanged := arcs.members_exchange (List.mem_map_of_mem first) { entry.2 with target }
      have kept : ∀ other ∈ rest,
          other ∈ ((arcs.remove entry.1).add { entry.2 with target }).members := by
        intro other member
        rw [exchanged]
        refine List.mem_cons_of_mem _ (List.mem_filter.mpr ⟨others other member, ?_⟩)
        rw [bne_iff_ne]
        exact fun same => apart (List.mem_map.mpr ⟨other, member, same⟩)
      rw [redirect, List.foldl_cons]
      refine (ih restNodup kept).trans ?_
      rw [exchanged, List.filter_cons_of_pos (by simpa using apart), List.filter_filter,
        List.reverse_cons, List.map_append, List.append_assoc]
      congr 2
      apply List.filter_congr
      intro member _
      rw [Bool.eq_iff_iff]
      simp [and_comm]

/-- The arcs after a redirection: those that were moved, the last one first, those of
the added nodes, and those that lead elsewhere. -/
theorem contents_redirect {new : List (Nat × Arc)}
    (members : inserted.arcs.members = new ++ before.arcs.members) :
    (redirect inserted.arcs target (before.arcs.members.filter (·.2.target == slot))).contents =
      (before.arcs.contents.filter (·.target == slot)).reverse.map ({ · with target }) ++
        (new.map (·.2) ++ before.arcs.contents.filter (·.target != slot)) := by
  have nodup := inserted.arcs.nodup
  rw [Slots.numbers, members, List.map_append] at nodup
  obtain ⟨_, oldNodup, apart⟩ := List.nodup_append.mp nodup
  have moved : ∀ entry ∈ before.arcs.members.filter (·.2.target == slot),
      entry ∈ inserted.arcs.members := by
    intro entry member
    rw [members]
    exact List.mem_append_right new (List.mem_filter.mp member).1
  have movedNodup : ((before.arcs.members.filter (·.2.target == slot)).map (·.1)).Nodup :=
    oldNodup.sublist (List.filter_sublist.map _)
  -- The arcs of added nodes and those that lead elsewhere have other numbers.
  have keptNew : new.filter
      (·.1 ∉ (before.arcs.members.filter (·.2.target == slot)).map (·.1)) = new := by
    rw [List.filter_eq_self]
    intro entry isNew
    rw [decide_eq_true_iff]
    intro again
    obtain ⟨other, isMoved, same⟩ := List.mem_map.mp again
    exact apart entry.1 (List.mem_map_of_mem isNew) other.1
      (List.mem_map_of_mem (List.mem_filter.mp isMoved).1) same.symm
  have keptOld : before.arcs.members.filter
      (·.1 ∉ (before.arcs.members.filter (·.2.target == slot)).map (·.1)) =
      before.arcs.members.filter (·.2.target != slot) := by
    apply List.filter_congr
    intro entry member
    rw [Bool.eq_iff_iff, decide_eq_true_iff, bne_iff_ne]
    constructor
    · intro unmoved leads
      exact unmoved (List.mem_map_of_mem (List.mem_filter.mpr ⟨member, beq_iff_eq.mpr leads⟩))
    · intro elsewhere again
      obtain ⟨other, isMoved, same⟩ := List.mem_map.mp again
      obtain ⟨isOld, leads⟩ := List.mem_filter.mp isMoved
      obtain rfl := List.inj_on_of_nodup_map oldNodup isOld member same
      exact elsewhere (eq_of_beq leads)
  rw [Slots.contents, members_redirect movedNodup moved, members, List.filter_append, keptNew,
    keptOld]
  simp [Slots.contents, List.filter_map, Function.comp_def]

/-- The arcs of a slot from before: those that led to the replaced slot come first, the
oldest of them in front. -/
theorem arcsFrom_relink (extension : Extends before inserted added) {source : Nat}
    (taken : source ∈ before.slots) :
    (before.relink inserted slot target).arcsFrom source =
      ((before.arcsFrom source).filter (·.target == slot)).reverse.map ({ · with target }) ++
        (before.arcsFrom source).filter (·.target != slot) := by
  obtain ⟨new, members, sources⟩ := extension.arcs
  have none : (new.map (·.2)).filter (·.source == source) = [] := by
    rw [List.filter_eq_nil_iff]
    intro arc listed same
    obtain ⟨entry, isNew, rfl⟩ := List.mem_map.mp listed
    exact sources entry isNew (eq_of_beq same ▸ taken)
  rw [arcsFrom, relink, contents_redirect members, List.filter_append, List.filter_append, none,
    List.nil_append, List.filter_map, List.filter_reverse, arcsFrom, List.filter_filter,
    List.filter_filter, List.filter_filter, List.filter_filter]
  simp only [Function.comp_def, Bool.and_comm]

/-- The arcs of the added nodes stay. -/
theorem arcsFrom_relink_new (linked : before.Linked) (extension : Extends before inserted added)
    {source : Nat} (isNew : source ∉ before.slots) :
    (before.relink inserted slot target).arcsFrom source = inserted.arcsFrom source := by
  obtain ⟨new, members, _⟩ := extension.arcs
  have none {arcs : List Arc} (old : ∀ arc ∈ arcs, arc.source ∈ before.slots) :
      arcs.filter (·.source == source) = [] := by
    rw [List.filter_eq_nil_iff]
    intro arc listed same
    exact isNew (eq_of_beq same ▸ old arc listed)
  have old : ∀ arc ∈ before.arcs.contents, arc.source ∈ before.slots :=
    fun arc listed => (linked.ends arc listed).1
  have kept : (before.arcs.contents.filter (·.target != slot)).filter (·.source == source) = [] :=
    none fun arc listed => old arc (List.mem_filter.mp listed).1
  have moved : ((before.arcs.contents.filter (·.target == slot)).reverse.map
      ({ · with target })).filter (·.source == source) = [] := by
    apply none
    intro arc listed
    obtain ⟨original, isMoved, rfl⟩ := List.mem_map.mp listed
    exact old original (List.mem_filter.mp (List.mem_reverse.mp isMoved)).1
  have absent : (before.arcs.members.map (·.2)).filter (·.source == source) = [] := none old
  rw [arcsFrom, relink, contents_redirect members, List.filter_append, List.filter_append, moved,
    kept, List.nil_append, List.append_nil, arcsFrom, Slots.contents, members, List.map_append,
    List.filter_append, absent, List.append_nil]

theorem idAt_relink : (before.relink inserted slot target).idAt = inserted.idAt := rfl

/-- The edges of a slot from before are redirected. -/
theorem edgesAt_relink (linked : before.Linked) (extension : Extends before inserted added)
    {source : Nat} (taken : source ∈ before.slots) (origin : slot ∈ before.slots) {vertex : Vertex}
    (edges : vertex.edges = before.edgesAt source) :
    (before.relink inserted slot target).edgesAt source =
      (vertex.redirect (before.idAt slot) (inserted.idAt target)).edges := by
  have leads : ∀ arc ∈ before.arcsFrom source,
      (before.idAt arc.target == before.idAt slot) = (arc.target == slot) := by
    intro arc member
    rw [Bool.eq_iff_iff, beq_iff_eq, beq_iff_eq]
    exact ⟨linked.slot_inj (linked.target_mem member) origin, fun same => by rw [same]⟩
  have moved : vertex.edges.filter (·.input == before.idAt slot) =
      ((before.arcsFrom source).filter (·.target == slot)).map
        fun arc => ⟨arc.position, before.idAt arc.target⟩ := by
    rw [edges, edgesAt, List.filter_map, ← List.filter_congr leads]
    rfl
  have kept : vertex.edges.filter (·.input != before.idAt slot) =
      ((before.arcsFrom source).filter (·.target != slot)).map
        fun arc => ⟨arc.position, before.idAt arc.target⟩ := by
    rw [edges, edgesAt, List.filter_map]
    congr 1
    apply List.filter_congr
    intro arc member
    exact congrArg not (leads arc member)
  have redirected : (vertex.redirect (before.idAt slot) (inserted.idAt target)).edges =
      (vertex.edges.filter (·.input == before.idAt slot)).reverse.map
          ({ · with input := inserted.idAt target }) ++
        vertex.edges.filter (·.input != before.idAt slot) := rfl
  rw [redirected, moved, kept, edgesAt, arcsFrom_relink extension taken, List.map_append,
    idAt_relink, ← List.map_reverse, List.map_map, List.map_map]
  congr 1
  apply List.map_congr_left
  intro arc member
  rw [extension.idAt (linked.target_mem (List.mem_filter.mp member).1)]

theorem linked_relink (linked : before.Linked) (extension : Extends before inserted added)
    (taken : target ∈ inserted.slots) : (before.relink inserted slot target).Linked where
  ends := by
    intro arc listed
    obtain ⟨new, members, _⟩ := extension.arcs
    rw [relink, contents_redirect members, List.mem_append, List.mem_append] at listed
    have old : ∀ arc ∈ before.arcs.contents, arc.source ∈ inserted.slots ∧
        arc.target ∈ inserted.slots :=
      fun arc old => (linked.ends arc old).imp extension.mem_slots extension.mem_slots
    rcases listed with moved | isNew | kept
    · obtain ⟨original, isMoved, rfl⟩ := List.mem_map.mp moved
      have isOld := (List.mem_filter.mp (List.mem_reverse.mp isMoved)).1
      exact ⟨(old original isOld).1, taken⟩
    · refine extension.linked.ends arc ?_
      rw [Slots.contents, members, List.map_append]
      exact List.mem_append_left _ isNew
    · exact old arc (List.mem_filter.mp kept).1
  index := extension.linked.index

/-- The vertices from before are redirected, and the added ones stay. -/
theorem vertices_relink (linked : before.Linked) (extension : Extends before inserted added)
    (origin : slot ∈ before.slots) :
    (before.relink inserted slot target).vertices = added.reverse ++
      before.vertices.map (·.redirect (before.idAt slot) (inserted.idAt target)) := by
  obtain ⟨new, members⟩ := extension.nodes
  have nodup := inserted.nodes.nodup
  rw [Slots.numbers, members, List.map_append] at nodup
  have apart : ∀ member ∈ new, member.1 ∉ before.slots := fun member isNew old =>
    (List.nodup_append.mp nodup).2.2 member.1 (List.mem_map_of_mem isNew) member.1 old rfl
  have old : before.nodes.members.map (fun member => inserted.vertexAt member.1 member.2) =
      before.vertices := by
    apply List.map_congr_left
    intro member listed
    have taken : member.1 ∈ before.slots := List.mem_map_of_mem listed
    obtain ⟨newArcs, arcs, sources⟩ := extension.arcs
    have same : inserted.arcsFrom member.1 = before.arcsFrom member.1 :=
      arcsFrom_of_members arcs fun entry isNew same => sources entry isNew (same ▸ taken)
    rw [vertexAt, vertexAt, edgesAt, edgesAt, same, Vertex.mk.injEq]
    refine ⟨rfl, rfl, List.map_congr_left ?_⟩
    intro arc leads
    rw [extension.idAt (linked.target_mem leads)]
  have addedVertices : new.map (fun member => inserted.vertexAt member.1 member.2) =
      added.reverse := by
    have whole := extension.vertices
    rw [vertices, members, List.map_append, old] at whole
    exact List.append_cancel_right whole
  have relinked : (before.relink inserted slot target).nodes.members =
      new ++ before.nodes.members := members
  rw [vertices, relinked, List.map_append, ← addedVertices, vertices, List.map_map]
  congr 1
  · apply List.map_congr_left
    intro member isNew
    rw [vertexAt, vertexAt, edgesAt, edgesAt,
      arcsFrom_relink_new linked extension (apart member isNew), idAt_relink]
  · apply List.map_congr_left
    intro member listed
    have taken : member.1 ∈ before.slots := List.mem_map_of_mem listed
    have edges := @edgesAt_relink before inserted added slot target linked extension member.1 taken
      origin (before.vertexAt member.1 member.2) rfl
    rw [vertexAt, edges]
    rfl

/-- The root is redirected as well. -/
theorem root_relink (linked : before.Linked) (extension : Extends before inserted added)
    (origin : slot ∈ before.slots) (root : before.root ∈ before.slots)
    (taken : target ∈ inserted.slots) :
    (before.relink inserted slot target).root ∈ inserted.slots ∧
      inserted.idAt (before.relink inserted slot target).root =
        Vertex.redirected (before.idAt slot) (inserted.idAt target) (before.idAt before.root) := by
  rw [relink, extension.root, Vertex.redirected]
  by_cases same : before.root = slot
  · rw [if_pos same, if_pos (by rw [same])]
    exact ⟨taken, rfl⟩
  · rw [if_neg same, if_neg (mt (linked.slot_inj root origin) same), extension.idAt root]
    exact ⟨extension.mem_slots root, rfl⟩

end Redirect

section Replace

variable {store : Store} {graph : PlanDag} {firstKey : Nat} {node : Nat → PlanNode}
  {target : Vertex} {graft : PlanNode}

theorem layered_graft (graftable : Graftable graph firstKey node target graft) : Layered graft := by
  intro outer inGraft input isInput inner inside same
  have occurs := (inside.trans (.input isInput)).trans inGraft
  obtain rfl := graftable.eq_of_id occurs inGraft same
  exact not_occurs_input isInput inside

/-- A vertex that does not read the replaced one is not redirected. -/
theorem redirect_eq_self {vertex : Vertex} {origin replacement : Nat}
    (unread : ∀ edge ∈ vertex.edges, edge.input ≠ origin) :
    vertex.redirect origin replacement = vertex := by
  have moved : vertex.edges.filter (·.input == origin) = [] := by
    rw [List.filter_eq_nil_iff]
    exact fun edge member leads => unread edge member (eq_of_beq leads)
  have kept : vertex.edges.filter (·.input != origin) = vertex.edges := by
    rw [List.filter_eq_self]
    exact fun edge member => bne_iff_ne.mpr (unread edge member)
  rw [Vertex.redirect, moved, kept]
  rfl

/-- The vertices of a store with a graft are those of its working graph with the graft. -/
theorem perm_grafted (graftable : Graftable graph firstKey node target graft)
    {vertices : List Vertex} (perm : vertices.Perm graph.vertices) :
    (((Graftable.newNodes graph graft).map Vertex.ofNode).reverse ++
        vertices.map (·.redirect target.id graft.id)).Perm
      (Graftable.grafted graph target graft) := by
  have ordered := graftable.represents.ordered
  obtain ⟨others, split, differ⟩ := ordered.exists_others graftable.member
  have unread : target.redirect target.id graft.id = target := by
    apply redirect_eq_self
    intro edge outgoing same
    have isInput := (ordered.wired graftable.member).mem_map_input.mp
      (List.mem_map_of_mem (f := (·.input)) outgoing)
    exact ordered.id_not_input graftable.member (same ▸ isInput)
  have expanded := split.flatMap_right
    (expansion target.id graft.id ((Graftable.newNodes graph graft).map Vertex.ofNode))
  rw [List.flatMap_cons, flatMap_expansion differ, expansion, if_pos rfl] at expanded
  have redirected := (perm.trans split.symm).map (·.redirect target.id graft.id)
  rw [List.map_cons, unread] at redirected
  have placed : (((Graftable.newNodes graph graft).map Vertex.ofNode).reverse ++
        vertices.map (·.redirect target.id graft.id)).Perm
      ((Graftable.newNodes graph graft).map Vertex.ofNode ++
        target :: others.map (·.redirect target.id graft.id)) :=
    (List.reverse_perm _).append redirected
  exact placed.trans (List.perm_middle.trans expanded)

/-- A replacement in a store is the replacement in its working graph. -/
theorem implements_replace (implements : store.Implements graph)
    (graftable : Graftable graph firstKey node target graft) {slot : Nat}
    (taken : slot ∈ store.slots) (id : store.idAt slot = target.id) :
    (store.replace slot graft).2 = true ∧
      (store.replace slot graft).1.Implements (graph.replace target.id graft) := by
  have linked := implements.linked
  have known : ∀ id, id ∈ store.vertices.map (·.id) ↔
      id ∈ graph.ids ∨ id ∈ ([] : List Vertex).map (·.id) := by
    intro id
    rw [(implements.vertices.map (·.id)).mem_iff]
    simp [PlanDag.ids]
  obtain ⟨new, added, extension, _, newTaken, newId⟩ :=
    extends_insertNode (layered_graft graftable) linked known graft .here
  rw [List.nil_append, graftable.newVertices_graft] at added
  subst added
  -- The graft has another id than the replaced node, so it is in another slot.
  have differs : (store.insertNode graft).2 ≠ slot := by
    intro same
    have equal := extension.idAt taken
    rw [← same, newId, same, id] at equal
    exact graftable.apart equal
  rw [replace, if_neg differs]
  refine ⟨rfl, ?_⟩
  rw [graftable.replace_eq]
  have relinked := @linked_relink store _ _ slot _ linked extension newTaken
  have perm :
      (store.relink (store.insertNode graft).1 slot (store.insertNode graft).2).vertices.Perm
        (Graftable.grafted graph target graft) := by
    rw [vertices_relink linked extension taken, id, newId]
    exact perm_grafted graftable implements.vertices
  have root := root_relink linked extension taken implements.root newTaken
  rw [id, newId, implements.rootId] at root
  rw [← root.2]
  exact implements_removeUnreachable relinked root.1 perm graftable.ordered_grafted

end Replace

end QueryPlan.Store
