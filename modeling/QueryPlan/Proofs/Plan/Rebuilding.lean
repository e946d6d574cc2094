import Mathlib.Data.List.Forall2
import QueryPlan.Proofs.Elimination.Meaning
import QueryPlan.Proofs.Graph.Graft
import QueryPlan.Proofs.Plan.BreadthFirst

/-!
# Rebuilding above a replaced node

Nodes are never changed in place: once a node of a plan is replaced, every node
above it is built anew, from the inputs up and with all the checks of a new
node. A replacement with the types of the replaced node passes all of them,
whatever its names are, and every rebuilt node has the types of the node that it
stands for. With the keys and ids that the nodes have, the rebuilt plan is the
one in which the replacement is substituted, and so it is what a graph exports
after the replacement.
-/

namespace QueryPlan.PlanNode

/-- Whether a node is found in a plan, by its identity. -/
def contains (plan node : PlanNode) : Bool := plan.breadthFirst.any (·.isSame node)

mutual
/-- The plan with `replacement` in the place of `target`. What `target` occurs in
is built anew with a key and an id of its own, everything else is kept. -/
def rebuild (label : PlanNode → Nat × Nat) (target replacement : PlanNode) :
    PlanNode → Except PlanError PlanNode
  | ⟨key, id, operator, inputs, schema⟩ =>
    let node : PlanNode := ⟨key, id, operator, inputs, schema⟩
    if node.isSame target then .ok replacement
    else if node.contains target then do
      build (label node).1 (label node).2 operator (← rebuildAll label target replacement inputs)
    else .ok node

/-- Several plans with `replacement` in the place of `target`. -/
def rebuildAll (label : PlanNode → Nat × Nat) (target replacement : PlanNode) :
    List PlanNode → Except PlanError (List PlanNode)
  | [] => .ok []
  | node :: rest => do
    let first ← rebuild label target replacement node
    let others ← rebuildAll label target replacement rest
    return first :: others
end

variable {label : PlanNode → Nat × Nat} {target replacement plan : PlanNode}

theorem rebuild_eq (node : PlanNode) :
    rebuild label target replacement node =
      if node.isSame target then .ok replacement
      else if node.contains target then
        (rebuildAll label target replacement node.inputs).bind
          (build (label node).1 (label node).2 node.operator)
      else .ok node := by
  cases node
  rw [rebuild]
  rfl

/-- In a plan a node is found where it occurs. -/
theorem contains_iff (coherent : plan.Coherent) {node : PlanNode} (nodeOccurs : Occurs node plan)
    (targetOccurs : Occurs target plan) : node.contains target = true ↔ Occurs target node := by
  rw [contains, List.any_eq_true]
  constructor
  · rintro ⟨inner, listed, same⟩
    have inside := (mem_breadthFirst (coherent.of_occurs nodeOccurs)).mp listed
    rwa [← coherent inner target (inside.trans nodeOccurs) targetOccurs (eq_of_beq same)]
  · intro inside
    exact ⟨target, (mem_breadthFirst (coherent.of_occurs nodeOccurs)).mpr inside, BEq.rfl⟩

/-- Inputs that can all be rebuilt with their types can be rebuilt together. -/
theorem rebuildAll_of_each {nodes : List PlanNode}
    (each : ∀ node ∈ nodes, ∃ rebuilt, rebuild label target replacement node = .ok rebuilt ∧
      rebuilt.Built ∧ rebuilt.types = node.types) :
    ∃ rebuilt, rebuildAll label target replacement nodes = .ok rebuilt ∧
      (∀ node ∈ rebuilt, node.Built) ∧ rebuilt.map types = nodes.map types := by
  induction nodes with
  | nil => exact ⟨[], rfl, fun _ member => (nomatch member), rfl⟩
  | cons node rest ih =>
      rcases each node List.mem_cons_self with ⟨first, firstRebuilt, firstBuilt, firstTypes⟩
      rcases ih fun other member => each other (List.mem_cons_of_mem _ member) with
        ⟨others, othersRebuilt, othersBuilt, othersTypes⟩
      refine ⟨first :: others, ?_, ?_, ?_⟩
      · rw [rebuildAll, firstRebuilt, othersRebuilt]
        rfl
      · exact List.forall_mem_cons.mpr ⟨firstBuilt, othersBuilt⟩
      · rw [List.map_cons, List.map_cons, firstTypes, othersTypes]

/-- Plans that are rebuilt one by one are rebuilt together. -/
theorem rebuildAll_eq_map {nodes : List PlanNode} {image : PlanNode → PlanNode}
    (each : ∀ node ∈ nodes, rebuild label target replacement node = .ok (image node)) :
    rebuildAll label target replacement nodes = .ok (nodes.map image) := by
  induction nodes with
  | nil => rfl
  | cons node rest ih =>
      obtain ⟨first, others⟩ := List.forall_mem_cons.mp each
      rw [rebuildAll, first, ih others]
      rfl

/-- What does not hold the replaced node is kept. -/
theorem rebuild_of_absent (coherent : plan.Coherent) (targetOccurs : Occurs target plan)
    {node : PlanNode} (occurs : Occurs node plan) (absent : ¬Occurs target node) :
    rebuild label target replacement node = .ok node := by
  have different : ¬node.isSame target = true := by
    intro same
    obtain rfl := coherent node target occurs targetOccurs (eq_of_beq same)
    exact absent .here
  have notContained : ¬node.contains target = true := by
    rwa [contains_iff coherent occurs targetOccurs]
  rw [rebuild_eq, if_neg different, if_neg notContained]

/-- Where the replaced node is below, the rebuilt node is built over the rebuilt
inputs. -/
theorem rebuild_of_above (coherent : plan.Coherent) (targetOccurs : Occurs target plan)
    {node : PlanNode} (occurs : Occurs node plan) (apart : node ≠ target)
    (above : Occurs target node) :
    rebuild label target replacement node =
      (rebuildAll label target replacement node.inputs).bind
        (build (label node).1 (label node).2 node.operator) := by
  have different : ¬node.isSame target = true := fun same =>
    apart (coherent node target occurs targetOccurs (eq_of_beq same))
  rw [rebuild_eq, if_neg different, if_pos ((contains_iff coherent occurs targetOccurs).mpr above)]

/-- The replaced node becomes the replacement. -/
theorem rebuild_target : rebuild label target replacement target = .ok replacement := by
  have same : target.isSame target = true := BEq.rfl
  rw [rebuild_eq, if_pos same]

/-- Rebuilding succeeds at every node of a plan and keeps its types. -/
theorem rebuild_of_types (valid : plan.Valid) (targetOccurs : Occurs target plan)
    (replaced : replacement.Built) (types : replacement.types = target.types)
    {node : PlanNode} (occurs : Occurs node plan) :
    ∃ rebuilt, rebuild label target replacement node = .ok rebuilt ∧ rebuilt.Built ∧
      rebuilt.types = node.types := by
  induction node using PlanNode.induct with
  | node key id operator inputs schema ih =>
      have nodeBuilt := valid.built.of_occurs occurs
      have checked := nodeBuilt _ .here
      rw [rebuild_eq]
      split
      · rename_i same
        rw [valid.coherent _ target occurs targetOccurs (eq_of_beq same)]
        exact ⟨replacement, rfl, replaced, types⟩
      · split
        · rcases rebuildAll_of_each fun input member =>
            ih input member ((Occurs.input member).trans occurs) with
            ⟨rebuiltInputs, rebuilt, inputsBuilt, sameTypes⟩
          rw [rebuilt]
          rcases build_of_same_types checked sameTypes with ⟨accepted, kept⟩
          exact ⟨_, accepted, built_assemble (sameTypes ▸ checked.typed) inputsBuilt, kept⟩
        · exact ⟨_, rfl, nodeBuilt, rfl⟩

/-- What stands in the place of a node once `target` is replaced: the replacement in
that of the target itself, the rebuilt node in that of a node above the target, and
any other node in its own. It is compatible with the node. -/
structure StandsFor (label : PlanNode → Nat × Nat) (target replacement node stand : PlanNode) :
    Prop where
  replaced : node = target → stand = replacement
  rebuilt : node ≠ target → Occurs target node → rebuild label target replacement node = .ok stand
  kept : ¬Occurs target node → stand = node
  compatible : node.schema.sameTypes stand.schema = true

/-- Each of several rebuilt nodes stands in the place of the node it was made of. -/
theorem forall₂_standsFor (valid : plan.Valid) (targetOccurs : Occurs target plan)
    (replaced : replacement.Built) (types : replacement.types = target.types)
    {nodes stands : List PlanNode} (occur : ∀ node ∈ nodes, Occurs node plan)
    (succeeded : rebuildAll label target replacement nodes = .ok stands) :
    List.Forall₂ (StandsFor label target replacement) nodes stands := by
  induction nodes generalizing stands with
  | nil =>
      obtain rfl := Except.ok.inj succeeded
      exact .nil
  | cons node rest ih =>
      obtain ⟨occurs, restOccur⟩ := List.forall_mem_cons.mp occur
      obtain ⟨stand, rebuilt, _, kept⟩ :=
        @rebuild_of_types label _ _ _ valid targetOccurs replaced types _ occurs
      obtain ⟨others, othersRebuilt, _⟩ := @rebuildAll_of_each label target replacement rest
        fun other member => rebuild_of_types valid targetOccurs replaced types (restOccur other member)
      rw [rebuildAll, rebuilt, othersRebuilt] at succeeded
      obtain rfl : stand :: others = stands := Except.ok.inj succeeded
      refine .cons ⟨?_, fun _ _ => rebuilt, ?_, Schema.sameTypes_iff.mpr kept.symm⟩
        (ih restOccur othersRebuilt)
      · rintro rfl
        rw [rebuild_target] at rebuilt
        exact (Except.ok.inj rebuilt).symm
      · intro absent
        rw [rebuild_of_absent valid.coherent targetOccurs occurs absent] at rebuilt
        exact (Except.ok.inj rebuilt).symm

/-- Rebuilding with the keys and ids that the nodes have is a substitution. -/
theorem rebuild_eq_substitute (valid : plan.Valid) (pinned : Pinned target plan)
    (targetOccurs : Occurs target plan) (types : replacement.types = target.types)
    (own : ∀ node, label node = (node.key, node.id)) {node : PlanNode} (occurs : Occurs node plan) :
    rebuild label target replacement node = .ok (substitute target.id replacement node) := by
  induction node using PlanNode.induct with
  | node key id operator inputs schema ih =>
      have below : Pinned target ⟨key, id, operator, inputs, schema⟩ :=
        fun inner inside => pinned inner (inside.trans occurs)
      have built := valid.built.of_occurs occurs
      by_cases same : (⟨key, id, operator, inputs, schema⟩ : PlanNode) = target
      · rw [same, rebuild_target, substitute_eq, if_pos rfl]
      · by_cases above : Occurs target ⟨key, id, operator, inputs, schema⟩
        · have inputsRebuilt : rebuildAll label target replacement inputs =
              .ok (inputs.map (substitute target.id replacement)) :=
            rebuildAll_eq_map fun input member => ih input member ((Occurs.input member).trans occurs)
          have apart : id ≠ target.id := fun equal => same (below _ .here equal)
          have kept : (inputs.map (substitute target.id replacement)).map PlanNode.types =
              inputs.map PlanNode.types := by
            rw [List.map_map]
            apply List.map_congr_left
            intro input member
            exact types_substitute (built.input member) (below.input member) types
          rw [rebuild_of_above valid.coherent targetOccurs occurs same above, inputsRebuilt, own,
            substitute_eq, if_neg apart]
          exact (build_of_same_types (built _ .here) kept).1
        · rw [rebuild_of_absent valid.coherent targetOccurs occurs above, substitute_of_absent built]
          intro inner inside equal
          exact above (below inner inside equal ▸ inside)

/-- A compatible replacement can be put into a plan without any further check.
Whatever the labels of the new nodes, the replaced node becomes the replacement,
and every node above it is accepted over its rebuilt inputs, with a schema that
is compatible with the one that it had. At the places of its inputs stand the
replacement for the replaced node, rebuilt nodes for those above it, and all other
inputs themselves. With the labels that the nodes have, this is the substitution
of the replacement for a node that alone has its id. -/
theorem rebuild_compatible (valid : plan.Valid) (targetOccurs : Occurs target plan)
    (replaced : replacement.Valid) (compatible : target.schema.sameTypes replacement.schema = true)
    (label : PlanNode → Nat × Nat) {ancestor : PlanNode} (occurs : Occurs ancestor plan)
    (above : Occurs target ancestor) :
    ∃ rebuilt, rebuild label target replacement ancestor = .ok rebuilt ∧ rebuilt.Built ∧
      ancestor.schema.sameTypes rebuilt.schema = true ∧
      (ancestor = target → rebuilt = replacement) ∧
      (ancestor ≠ target → ∃ inputs,
        rebuildAll label target replacement ancestor.inputs = .ok inputs ∧
        List.Forall₂ (StandsFor label target replacement) ancestor.inputs inputs ∧
        build (label ancestor).1 (label ancestor).2 ancestor.operator inputs = .ok rebuilt) ∧
      (Pinned target plan → (∀ node, label node = (node.key, node.id)) →
        rebuilt = substitute target.id replacement ancestor) := by
  have types := (Schema.sameTypes_iff.mp compatible).symm
  rcases rebuild_of_types valid targetOccurs replaced.built types occurs with
    ⟨rebuilt, succeeded, built, kept⟩
  refine ⟨rebuilt, succeeded, built, Schema.sameTypes_iff.mpr kept.symm, ?_, ?_, ?_⟩
  · rintro rfl
    rw [rebuild_target] at succeeded
    exact (Except.ok.inj succeeded).symm
  · intro apart
    have inputOccurs : ∀ input ∈ ancestor.inputs, Occurs input plan :=
      fun input member => (Occurs.input member).trans occurs
    rcases rebuildAll_of_each fun input member => rebuild_of_types valid targetOccurs replaced.built
      types (inputOccurs input member) with ⟨inputs, inputsRebuilt, _⟩
    rw [rebuild_of_above valid.coherent targetOccurs occurs apart above, inputsRebuilt] at succeeded
    exact ⟨inputs, inputsRebuilt,
      forall₂_standsFor valid targetOccurs replaced.built types inputOccurs inputsRebuilt, succeeded⟩
  · intro pinned own
    rw [rebuild_eq_substitute valid pinned targetOccurs types own occurs] at succeeded
    exact (Except.ok.inj succeeded).symm

end QueryPlan.PlanNode

namespace QueryPlan

/-- What a graph exports after a replacement is what rebuilding gives, with the keys
and ids that the nodes have. -/
theorem Graftable.rebuild_eq_toPlan {graph : PlanDag} {firstKey : Nat} {node : Nat → PlanNode}
    {target : Vertex} {graft : PlanNode} (graftable : Graftable graph firstKey node target graft)
    {label : PlanNode → Nat × Nat} (own : ∀ node, label node = (node.key, node.id)) :
    PlanNode.rebuild label (node target.id) graft (node graph.root) =
      (graph.replace target.id graft).toPlan firstKey := by
  have represents := graftable.represents
  have id : (node target.id).id = target.id := represents.labels.id_eq graftable.target_mem
  have rebuilt := PlanNode.rebuild_eq_substitute represents.valid (represents.pinned graftable.member)
    graftable.target_occurs graftable.types own .here
  rw [id] at rebuilt
  rw [rebuilt, graftable.represents_replace.toPlan_eq, graftable.plan_replace]

namespace Sample

/-- A table with the types of `orders` and other names. -/
def sales : PlanNode :=
  .assemble 2 0 (.tableScan "sales" ⟨[⟨"buyer", .utf8⟩, ⟨"article", .int64⟩]⟩) []

theorem customers_valid : customers.Valid := by
  refine ⟨customers_built, ?_⟩
  apply @PlanNode.coherent_of_listed customers [customers, orders] (by decide)
  intro node occurs
  exact List.mem_pair.mpr (occurs_customers.mp occurs)

theorem occurs_sales {node : PlanNode} : node.Occurs sales ↔ node = sales := by
  rw [PlanNode.occurs_iff, sales]
  simp [PlanNode.assemble]

theorem sales_valid : sales.Valid := by
  refine ⟨PlanNode.built_assemble (.tableScan _ _) (by simp), ?_⟩
  apply @PlanNode.coherent_of_listed sales [sales] (by decide)
  intro node occurs
  exact List.mem_singleton.mpr (occurs_sales.mp occurs)

/-- `rebuild_compatible` for a table with other names below an aggregate. -/
theorem rebuild_compatible_customers :
    ∃ rebuilt, PlanNode.rebuild (fun _ => (7, 7)) orders sales customers = .ok rebuilt ∧
      rebuilt.Built ∧ customers.schema.sameTypes rebuilt.schema = true ∧
      rebuilt.operator = customers.operator ∧ rebuilt.inputs = [sales] ∧
      rebuilt.schema.names = ["buyer", "COUNT(DISTINCT $1)", "COUNT($1)"] := by
  obtain ⟨rebuilt, succeeded, built, compatible, _, above, _⟩ :=
    PlanNode.rebuild_compatible customers_valid (occurs_customers.mpr (.inr rfl)) sales_valid
      (by decide) (fun _ => (7, 7)) .here (occurs_customers.mpr (.inr rfl))
  obtain ⟨inputs, _, stand, accepted⟩ := above fun same =>
    absurd (congrArg PlanNode.key same) (by decide)
  -- The only input is the table itself.
  obtain ⟨only, others, first, rest, rfl⟩ := List.forall₂_cons_left_iff.mp stand
  obtain rfl := first.replaced rfl
  obtain rfl := List.forall₂_nil_left_iff.mp rest
  obtain ⟨_, rfl⟩ := PlanNode.typed_of_build accepted
  exact ⟨_, succeeded, built, compatible, rfl, rfl, by decide⟩

end Sample

end QueryPlan
