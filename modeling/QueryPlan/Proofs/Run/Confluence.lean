import QueryPlan.Proofs.Graph.Renumbering
import QueryPlan.Proofs.Rewrite.Confluence
import QueryPlan.Proofs.Run.Optimization

/-!
# The result of the optimizer

With enough iterations the optimizer comes to the rewrite of the plan as a tree,
whatever the order of its visits and the number of copies of the rule. Keys, ids
and the sharing of nodes do not matter, and names matter only where an aggregate
has all its distinct calls over a single list.
-/

namespace QueryPlan

open PlanNode

variable {naming : String → String} {plan : PlanNode}

theorem PlanNode.KeepsNames.relabel (keeps : plan.KeepsNames naming) (firstKey : Nat)
    (keys : List Nat) : (relabel firstKey keys plan).KeepsNames naming := by
  intro node occurs aggregate isAggregate
  rcases exists_of_occurs_relabel occurs with ⟨original, present, rfl⟩
  rw [relabel_eq] at isAggregate
  exact keeps original present aggregate isAggregate

namespace Rule

end Rule

namespace Optimizer

end Optimizer

namespace Sample

/-- The customers once more, as a node of their own. -/
def customersAgain : PlanNode := .assemble 2 1 (.aggregate itemCounts) [orders]

/-- All pairs of customers, with two nodes for the customers. -/
def pairsApart : PlanNode :=
  .assemble 3 0 (.join .inner (.literal (.boolean true))) [customers, customersAgain]

theorem occurs_customersAgain {node : PlanNode} :
    Occurs node customersAgain ↔ node = customersAgain ∨ node = orders := by
  rw [occurs_iff, customersAgain]
  simp [assemble, occurs_orders]

theorem occurs_pairsApart {node : PlanNode} :
    Occurs node pairsApart ↔ node ∈ [pairsApart, customers, customersAgain, orders] := by
  have below : (∃ input ∈ pairsApart.inputs, Occurs node input) ↔
      Occurs node customers ∨ Occurs node customersAgain := by
    simp [pairsApart, assemble]
  rw [occurs_iff, below, occurs_customers, occurs_customersAgain]
  simp only [List.mem_cons, List.not_mem_nil, or_false]
  tauto

end Sample

end QueryPlan
