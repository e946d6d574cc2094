import Mathlib.Data.List.Nodup
import QueryPlan.Proofs.Plan.Validity

/-!
# Nodes of a plan, inputs first

`postorder` lists every node of a plan once, after its inputs. A list of nodes
is settled in a plan when it was grown one node at a time, each a node of the
plan that is not in the list yet while its inputs are.
-/

namespace QueryPlan.PlanNode

mutual
/-- Adds the nodes of a plan that are not among `done`, inputs first. -/
def postorder (done : List PlanNode) : PlanNode → List PlanNode
  | ⟨key, id, operator, inputs, schema⟩ =>
    if key ∈ done.map (·.key) then done
    else postorderAll done inputs ++ [⟨key, id, operator, inputs, schema⟩]

/-- Adds the nodes of several plans from left to right. -/
def postorderAll (done : List PlanNode) : List PlanNode → List PlanNode
  | [] => done
  | node :: rest => postorderAll (postorder done node) rest
end

/-- A list of nodes of a plan in which every node is new and follows its inputs. -/
inductive Settled (plan : PlanNode) : List PlanNode → Prop
  | nil : Settled plan []
  | snoc {nodes : List PlanNode} {node : PlanNode} :
      Settled plan nodes → Occurs node plan → node.key ∉ nodes.map (·.key) →
      (∀ input ∈ node.inputs, input.key ∈ nodes.map (·.key)) → Settled plan (nodes ++ [node])

namespace Settled

variable {plan : PlanNode} {nodes : List PlanNode}

theorem occurs (settled : Settled plan nodes) : ∀ node ∈ nodes, Occurs node plan := by
  induction settled with
  | nil => simp
  | snoc _ last _ _ ih =>
      intro node member
      rcases List.mem_append.mp member with before | new
      · exact ih node before
      · rw [List.mem_singleton.mp new]
        exact last

theorem nodup_keys (settled : Settled plan nodes) : (nodes.map (·.key)).Nodup := by
  induction settled with
  | nil => exact .nil
  | snoc _ _ new _ ih =>
      rw [List.map_append, List.map_singleton]
      exact List.nodup_append.mpr ⟨ih, List.nodup_singleton _, by
        intro key member other isNew
        rw [List.mem_singleton.mp isNew]
        exact fun same => new (same ▸ member)⟩

/-- The inputs of listed nodes are listed. -/
theorem closed (settled : Settled plan nodes) :
    ∀ node ∈ nodes, ∀ input ∈ node.inputs, input.key ∈ nodes.map (·.key) := by
  induction settled with
  | nil => simp
  | snoc _ _ _ inputs ih =>
      intro node member input isInput
      rw [List.map_append, List.mem_append]
      rcases List.mem_append.mp member with before | new
      · exact .inl (ih node before input isInput)
      · rcases List.mem_singleton.mp new with rfl
        exact .inl (inputs input isInput)

/-- A node of the plan is listed as soon as its key is. -/
theorem mem_of_key (settled : Settled plan nodes) (coherent : plan.Coherent) {node : PlanNode}
    (inPlan : Occurs node plan) (listed : node.key ∈ nodes.map (·.key)) : node ∈ nodes := by
  rcases List.mem_map.mp listed with ⟨other, member, same⟩
  rw [← coherent other node (settled.occurs other member) inPlan same]
  exact member

end Settled

mutual
/-- What is added to a list occurs in the plan that is added. -/
theorem mem_postorder (done : List PlanNode) (plan : PlanNode) :
    ∀ node ∈ postorder done plan, node ∈ done ∨ Occurs node plan := by
  match plan with
  | ⟨key, id, operator, inputs, schema⟩ =>
      intro node member
      rw [postorder] at member
      split at member
      · exact .inl member
      · rcases List.mem_append.mp member with below | last
        · rcases mem_postorderAll done inputs node below with old | ⟨input, isInput, inside⟩
          · exact .inl old
          · exact .inr (.under isInput inside)
        · rw [List.mem_singleton.mp last]
          exact .inr .here

theorem mem_postorderAll (done plans : List PlanNode) :
    ∀ node ∈ postorderAll done plans, node ∈ done ∨ ∃ plan ∈ plans, Occurs node plan := by
  match plans with
  | [] => exact fun node member => .inl member
  | plan :: rest =>
      intro node member
      rcases mem_postorderAll _ rest node member with before | ⟨other, isOther, inside⟩
      · rcases mem_postorder done plan node before with old | inside
        · exact .inl old
        · exact .inr ⟨plan, List.mem_cons_self, inside⟩
      · exact .inr ⟨other, List.mem_cons_of_mem _ isOther, inside⟩
end

variable {plan : PlanNode}

mutual
/-- Adding a part of a plan keeps a list settled, keeps what is in it, and lists
the root of the part. -/
theorem settled_postorder (coherent : plan.Coherent) {done : List PlanNode}
    (settled : Settled plan done) (part : PlanNode) (inPlan : Occurs part plan) :
    Settled plan (postorder done part) ∧ done ⊆ postorder done part ∧
      part.key ∈ (postorder done part).map (·.key) := by
  match part with
  | ⟨key, id, operator, inputs, schema⟩ =>
      rw [postorder]
      split
      · rename_i listed
        exact ⟨settled, fun _ member => member, listed⟩
      · rename_i unlisted
        obtain ⟨below, kept, inputsListed⟩ := settled_postorderAll coherent settled inputs
          fun input isInput => (Occurs.input isInput).trans inPlan
        refine ⟨.snoc below inPlan ?_ inputsListed, ?_, by simp⟩
        · -- A node with this key would be the part itself, which is not below itself.
          intro again
          rcases List.mem_map.mp again with ⟨other, member, same⟩
          rcases mem_postorderAll done inputs other member with old | ⟨input, isInput, inside⟩
          · exact unlisted (List.mem_map.mpr ⟨other, old, same⟩)
          · rcases coherent other _ (below.occurs other member) inPlan same with rfl
            exact not_occurs_input isInput inside
        · exact fun node member => List.mem_append_left _ (kept member)

theorem settled_postorderAll (coherent : plan.Coherent) {done : List PlanNode}
    (settled : Settled plan done) (parts : List PlanNode)
    (inPlan : ∀ part ∈ parts, Occurs part plan) :
    Settled plan (postorderAll done parts) ∧ done ⊆ postorderAll done parts ∧
      ∀ part ∈ parts, part.key ∈ (postorderAll done parts).map (·.key) := by
  match parts with
  | [] => exact ⟨settled, fun _ member => member, by simp⟩
  | part :: rest =>
      obtain ⟨first, kept, listed⟩ := settled_postorder coherent settled part
        (inPlan part List.mem_cons_self)
      obtain ⟨all, further, restListed⟩ := settled_postorderAll coherent first rest
        fun other member => inPlan other (List.mem_cons_of_mem _ member)
      refine ⟨all, fun node member => further (kept member), ?_⟩
      rw [List.forall_mem_cons]
      exact ⟨List.map_subset _ further listed, restListed⟩
end

/-- The nodes of a plan, inputs first. -/
def nodes (plan : PlanNode) : List PlanNode := postorder [] plan

/-- The root of a plan is its last node. -/
theorem nodes_eq (plan : PlanNode) : plan.nodes = postorderAll [] plan.inputs ++ [plan] := by
  cases plan
  rw [nodes, postorder, if_neg (by simp)]

theorem settled_nodes (coherent : plan.Coherent) : Settled plan plan.nodes :=
  (settled_postorder coherent .nil plan .here).1

/-- Exactly the nodes that occur in a plan are listed. -/
theorem mem_nodes (coherent : plan.Coherent) {node : PlanNode} :
    node ∈ plan.nodes ↔ Occurs node plan := by
  have settled := settled_nodes coherent
  constructor
  · exact settled.occurs node
  · intro occurs
    have root : plan ∈ plan.nodes :=
      settled.mem_of_key coherent .here (settled_postorder coherent .nil plan .here).2.2
    refine occurs.closed ?_ root
    intro outer member input isInput
    exact settled.mem_of_key coherent ((Occurs.input isInput).trans (settled.occurs outer member))
      (settled.closed outer member input isInput)

end QueryPlan.PlanNode
