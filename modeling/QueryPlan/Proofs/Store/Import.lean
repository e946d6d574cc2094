import Mathlib.Data.List.Forall2
import QueryPlan.Proofs.Graph.Import
import QueryPlan.Proofs.Store.View

/-!
# The store of a plan

An import puts the nodes of a plan into a store one after the other, inputs first,
and gives them the ids from zero on. So the store implements the working graph of the
plan, whatever slots the nodes are in.
-/

namespace QueryPlan.Store

open PlanNode (Occurs Settled postorder postorderAll settled_postorder settled_postorderAll)

/-- Whether an import has taken in exactly the nodes of a list, in their order. -/
structure Imports (state : Import) (done : List PlanNode) : Prop where
  linked : state.store.Linked
  vertices : state.store.vertices = ((places done).map (·.2)).reverse
  nextId : state.nextId = done.length
  absent : ∀ key, key ∉ done.map (·.key) → state.slotOf key = none
  present : ∀ key ∈ done.map (·.key), ∃ slot ∈ state.store.slots,
    state.slotOf key = some slot ∧ state.store.idAt slot = (done.map (·.key)).idxOf key

namespace Imports

variable {state : Import} {done : List PlanNode}

theorem start : Imports ⟨empty, 0, fun _ => none⟩ [] :=
  ⟨.empty, rfl, rfl, fun _ _ => rfl, by simp⟩

/-- The next id is not in use. -/
theorem unused (imports : Imports state done) : state.store.index state.nextId = none := by
  rw [imports.linked.index_eq_none_iff, imports.vertices, imports.nextId, List.map_reverse,
    List.mem_reverse, map_id_places, List.mem_range]
  exact Nat.lt_irrefl _

/-- Slots that were given out for nodes are those of the ids of these nodes. -/
theorem map_idAt (imports : Imports state done) {parts : List PlanNode} {slots : List Nat}
    (given : List.Forall₂ (fun part slot => state.slotOf part.key = some slot) parts slots)
    (listed : ∀ part ∈ parts, part.key ∈ done.map (·.key)) :
    (∀ slot ∈ slots, slot ∈ state.store.slots) ∧
      slots.map state.store.idAt = parts.map fun part => (done.map (·.key)).idxOf part.key := by
  induction given with
  | nil => simp
  | @cons part slot parts slots found _ ih =>
      obtain ⟨partListed, othersListed⟩ := List.forall_mem_cons.mp listed
      obtain ⟨other, taken, same, id⟩ := imports.present part.key partListed
      obtain rfl : other = slot := Option.some.inj (same.symm.trans found)
      obtain ⟨others, ids⟩ := ih othersListed
      refine ⟨List.forall_mem_cons.mpr ⟨taken, others⟩, ?_⟩
      rw [List.map_cons, List.map_cons, id, ids]

/-- An import goes on with a node whose inputs are imported. -/
theorem snoc (imports : Imports state done) {node : PlanNode} {slots : List Nat}
    (closed : ∀ other ∈ done, ∀ input ∈ other.inputs, input.key ∈ done.map (·.key))
    (new : node.key ∉ done.map (·.key))
    (listed : ∀ input ∈ node.inputs, input.key ∈ done.map (·.key))
    (given : List.Forall₂ (fun part slot => state.slotOf part.key = some slot) node.inputs slots) :
    let added := state.store.addNode state.nextId node.operator slots
    Imports ⟨added.1, state.nextId + 1,
      fun other => if other = node.key then some added.2 else state.slotOf other⟩
      (done ++ [node]) := by
  intro added
  obtain ⟨known, ids⟩ := imports.map_idAt given listed
  have extension : Extends state.store added.1 _ :=
    extends_addNode imports.linked imports.unused known
  have keys : (done ++ [node]).map (·.key) = done.map (·.key) ++ [node.key] := by simp
  refine ⟨extension.linked, ?vertices, ?nextId, ?absent, ?present⟩
  case vertices =>
    rw [extension.vertices, places_snoc closed listed, List.map_append, List.reverse_append,
      imports.vertices, imports.nextId, ids]
    rfl
  case nextId => simp [imports.nextId]
  case absent =>
    intro key absent
    rw [keys, List.mem_append, List.mem_singleton, not_or] at absent
    simp only [if_neg absent.2, imports.absent key absent.1]
  case present =>
    intro key member
    rw [keys] at member ⊢
    by_cases same : key = node.key
    · refine ⟨added.2, List.mem_cons_self, by simp [same], ?_⟩
      rw [same, List.idxOf_append_of_notMem new, List.idxOf_cons_self, Nat.add_zero,
        List.length_map]
      exact idAt_addNode_self.trans imports.nextId
    · have old : key ∈ done.map (·.key) := by simpa [same] using member
      obtain ⟨slot, taken, found, id⟩ := imports.present key old
      refine ⟨slot, extension.mem_slots taken, by simp [same, found], ?_⟩
      rw [extension.idAt taken, id, List.idxOf_append_of_mem old]

end Imports

mutual
/-- An import of a part of a plan adds its nodes, inputs first. -/
theorem imports_importNode {plan : PlanNode} (coherent : plan.Coherent) {state : Import}
    {done : List PlanNode} (settled : Settled plan done) (imports : Imports state done)
    (part : PlanNode) (inPlan : Occurs part plan) :
    Imports (importNode state part).1 (postorder done part) ∧
      (importNode state part).1.slotOf part.key = some (importNode state part).2 ∧
      ∀ key slot, state.slotOf key = some slot →
        (importNode state part).1.slotOf key = some slot := by
  match part with
  | ⟨key, id, operator, inputs, schema⟩ =>
      rw [importNode, postorder]
      by_cases listed : key ∈ done.map (·.key)
      · obtain ⟨slot, _, found, _⟩ := imports.present key listed
        simp only [found, if_pos listed]
        exact ⟨imports, trivial, fun _ _ given => given⟩
      · have inputsInPlan : ∀ input ∈ inputs, Occurs input plan :=
          fun input isInput => (Occurs.input isInput).trans inPlan
        obtain ⟨below, given, kept⟩ :=
          imports_importAll coherent settled imports inputs inputsInPlan
        obtain ⟨belowSettled, _, inputsListed⟩ :=
          settled_postorderAll coherent settled inputs inputsInPlan
        -- The node is new when its inputs are there, since the list with it is settled.
        have whole :=
          (settled_postorder coherent settled ⟨key, id, operator, inputs, schema⟩ inPlan).1
        rw [postorder, if_neg listed] at whole
        have new : key ∉ (postorderAll done inputs).map (·.key) := by
          have nodup := whole.nodup_keys
          rw [List.map_append, List.nodup_append] at nodup
          exact fun again => nodup.2.2 key again key (by simp) rfl
        have later := @Imports.snoc _ _ below ⟨key, id, operator, inputs, schema⟩ _
          belowSettled.closed new inputsListed given
        simp only [imports.absent key listed, if_neg listed]
        refine ⟨later, by simp, ?_⟩
        intro other slot found
        have differs : other ≠ key := by
          rintro rfl
          rw [imports.absent other listed] at found
          simp at found
        simp only [if_neg differs]
        exact kept other slot found

theorem imports_importAll {plan : PlanNode} (coherent : plan.Coherent) {state : Import}
    {done : List PlanNode} (settled : Settled plan done) (imports : Imports state done)
    (parts : List PlanNode) (inPlan : ∀ part ∈ parts, Occurs part plan) :
    Imports (importAll state parts).1 (postorderAll done parts) ∧
      List.Forall₂ (fun part slot => (importAll state parts).1.slotOf part.key = some slot) parts
        (importAll state parts).2 ∧
      ∀ key slot, state.slotOf key = some slot →
        (importAll state parts).1.slotOf key = some slot := by
  match parts with
  | [] => exact ⟨imports, .nil, fun _ _ given => given⟩
  | part :: rest =>
      have partInPlan := inPlan part List.mem_cons_self
      obtain ⟨first, found, kept⟩ := imports_importNode coherent settled imports part partInPlan
      have partSettled := (settled_postorder coherent settled part partInPlan).1
      obtain ⟨others, given, further⟩ := imports_importAll coherent partSettled first rest
        fun other member => inPlan other (List.mem_cons_of_mem _ member)
      simp only [importAll, postorderAll]
      exact ⟨others, .cons (further _ _ found) given,
        fun key slot old => further key slot (kept key slot old)⟩
end

/-- The store of a plan implements its working graph, with the same next id. -/
theorem implements_ofPlan {plan : PlanNode} (coherent : plan.Coherent) :
    (ofPlan plan).1.Implements (.ofPlan plan) ∧ (ofPlan plan).2 = (PlanDag.ofPlan plan).size := by
  have settled := PlanNode.settled_nodes coherent
  obtain ⟨imports, found, _⟩ := imports_importNode coherent .nil .start plan .here
  obtain ⟨known, ids⟩ := imports.map_idAt (.cons found .nil) (by
    intro part member
    obtain rfl := List.mem_singleton.mp member
    exact (settled_postorder coherent .nil part .here).2.2)
  have size : (PlanDag.ofPlan plan).size = plan.nodes.length := by
    rw [PlanDag.size, vertices_ofPlan coherent, List.length_map, length_places]
  refine ⟨⟨?linked, ?vertices, known _ List.mem_cons_self, ?rootId⟩, imports.nextId.trans size.symm⟩
  case linked => exact ⟨imports.linked.ends, imports.linked.index⟩
  case vertices =>
    have listed : (ofPlan plan).1.vertices = ((places plan.nodes).map (·.2)).reverse :=
      imports.vertices
    rw [listed, vertices_ofPlan coherent]
    exact List.reverse_perm _
  case rootId =>
    have id : (ofPlan plan).1.idAt (ofPlan plan).1.root = (plan.nodes.map (·.key)).idxOf plan.key :=
      (List.cons.inj ids).1
    rw [id]
    exact idxOf_of_getElem? settled (getElem?_root coherent)

end QueryPlan.Store
