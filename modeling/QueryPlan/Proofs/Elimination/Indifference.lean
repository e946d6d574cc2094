import QueryPlan.Proofs.Elimination.Meaning
import QueryPlan.Proofs.Elimination.Size
import QueryPlan.Proofs.Plan.BreadthFirst

/-!
# Firing on equal nodes

Equal plan nodes may differ in their keys and ids, in the nodes that they share,
and in the bits of equal literals. The elimination sees none of this: it binds at
both nodes or at neither, and fired on both it makes equal replacements. The new
nodes of each take consecutive ids from the supply of its own firing, and as many.
-/

namespace QueryPlan

namespace PlanNode

/-- Whether a supply that goes on from `nextKey` gives out no key of the plan again. -/
def KeysBelow (plan : PlanNode) (nextKey : Nat) : Prop :=
  ∀ node, Occurs node plan → node.key < nextKey

/-- What a firing has built, listed: the nodes of a replacement that do not occur in
the node that it is for. Their ids are consecutive, from the first one on. -/
structure NewNodes (node replacement : PlanNode) (firstId : Nat) (nodes : List PlanNode) :
    Prop where
  mem_iff : ∀ inner, inner ∈ nodes ↔ Occurs inner replacement ∧ ¬Occurs inner node
  keys : (nodes.map (·.key)).Nodup
  ids : nodes.map (·.id) = List.range' firstId nodes.length

end PlanNode

namespace DistinctElimination

open PlanNode

variable {naming : String → String} {aggregate : Aggregate} {left right node input : PlanNode}

/-- The created nodes of the template are the new nodes of the replacement, as long
as no key of the node is used again. -/
theorem newNodes_created (eliminable : node.Eliminable aggregate input) {key : Nat}
    (below : node.KeysBelow key) (id : Nat) :
    NewNodes node ((templateOf node).place key id) id ((templateOf node).created key id) where
  mem_iff := by
    intro inner
    constructor
    · intro new
      refine ⟨Template.occurs_of_created _ new, ?_⟩
      intro old
      have supplied := List.mem_map_of_mem (f := fun node : PlanNode => node.key) new
      rw [Template.map_key_created, List.mem_range'_1] at supplied
      exact absurd (below inner old) (Nat.not_lt_of_le supplied.1)
    · rintro ⟨occurs, new⟩
      rcases Template.occurs_place _ key id occurs with made | ⟨leaf, member, inside⟩
      · exact made
      · rw [(mem_leaves_templateOf eliminable).mp member] at inside
        apply absurd (inside.trans (.input _)) new
        rw [eliminable.inputs]
        exact List.mem_singleton_self input
  keys := by
    rw [Template.map_key_created]
    exact List.nodup_range' 1 Nat.one_pos
  ids := by rw [Template.map_id_created, Template.length_created]

/-- The elimination goes through at a checked node of the same form as well. -/
theorem eliminable_of_form (eliminable : left.Eliminable aggregate input)
    (checked : right.Checked) (forms : left.form naming = right.form naming) :
    ∃ other, right.Eliminable aggregate other := by
  obtain ⟨operator, _⟩ := operator_and_input_of_form eliminable forms
  obtain ⟨other, inputs, fits, types⟩ := checked.aggregate_input operator
  exact ⟨other, operator, inputs, eliminable.distinct, fits, types⟩

/-- The rule binds at both of two nodes of one form or at neither. -/
theorem bind?_isSome_of_form (forms : left.form naming = right.form naming) :
    (Binding.bind? Rule.distinctElimination.pattern left).isSome =
      (Binding.bind? Rule.distinctElimination.pattern right).isSome := by
  rw [bind?_pattern, bind?_pattern, hasDistinctCall_of_form forms]
  cases right.operator.hasDistinctCall <;> rfl

/-- What a firing on a built node does, with its new nodes. -/
theorem fire_newNodes (eliminable : node.Eliminable aggregate input) {key : Nat}
    (below : node.KeysBelow key) (id : Nat) :
    ∃ firing nodes,
      Rule.distinctElimination.fire ⟨node, []⟩ id key =
        (.ok (some ((templateOf node).place key id)), firing) ∧
      NewNodes node ((templateOf node).place key id) id nodes ∧
      firing.nextId = id + nodes.length ∧ nodes.length = aggregate.growth + 1 := by
  refine ⟨_, _, fire_eq eliminable id key, newNodes_created eliminable below id, ?_, ?_⟩
  · rw [Template.length_created]
  · rw [Template.length_created, size_templateOf_eq eliminable, eliminable.operator, Operator.growth]

end DistinctElimination

namespace Rule

open DistinctElimination PlanNode

/-- Firing sees neither keys and ids, nor what is shared, nor the bits of equal
literals. At equal nodes the rule binds both times or not at all. When it binds, both
firings succeed with equal replacements, and they use up the same number of ids,
each for the new nodes of its own replacement. -/
theorem fire_indifferent {left right : PlanNode} (leftValid : left.Valid) (rightValid : right.Valid)
    (equal : (left == right) = true) {leftKey rightKey : Nat} (leftBelow : left.KeysBelow leftKey)
    (rightBelow : right.KeysBelow rightKey) (leftId rightId : Nat) :
    (Binding.bind? distinctElimination.pattern left).isSome =
      (Binding.bind? distinctElimination.pattern right).isSome ∧
    ∀ leftBinding rightBinding,
      Binding.bind? distinctElimination.pattern left = some leftBinding →
      Binding.bind? distinctElimination.pattern right = some rightBinding →
      ∃ leftReplacement rightReplacement leftEnd rightEnd leftNew rightNew,
        distinctElimination.fire leftBinding leftId leftKey =
          (.ok (some leftReplacement), leftEnd) ∧
        distinctElimination.fire rightBinding rightId rightKey =
          (.ok (some rightReplacement), rightEnd) ∧
        (leftReplacement == rightReplacement) = true ∧
        leftNew.length = rightNew.length ∧
        (NewNodes left leftReplacement leftId leftNew ∧
          leftEnd.nextId = leftId + leftNew.length) ∧
        (NewNodes right rightReplacement rightId rightNew ∧
          rightEnd.nextId = rightId + rightNew.length) := by
  have forms := (beq_iff left right).mp equal
  refine ⟨bind?_isSome_of_form forms, ?_⟩
  intro leftBinding rightBinding leftBound rightBound
  rw [bind?_pattern, Option.ite_none_right_eq_some] at leftBound rightBound
  obtain ⟨distinct, ⟨⟩⟩ := leftBound
  obtain ⟨_, ⟨⟩⟩ := rightBound
  obtain ⟨aggregate, input, eliminable⟩ := (leftValid.built _ .here).eliminable distinct
  obtain ⟨_, rightEliminable⟩ := eliminable_of_form eliminable (rightValid.built _ .here) forms
  obtain ⟨leftEnd, leftNew, leftFired, leftNodes, leftUsed, leftCount⟩ :=
    fire_newNodes eliminable leftBelow leftId
  obtain ⟨rightEnd, rightNew, rightFired, rightNodes, rightUsed, rightCount⟩ :=
    fire_newNodes rightEliminable rightBelow rightId
  refine ⟨_, _, leftEnd, rightEnd, leftNew, rightNew, leftFired, rightFired, ?equal, ?count,
    ⟨leftNodes, leftUsed⟩, rightNodes, rightUsed⟩
  case equal => exact (beq_iff _ _).mpr (form_place_templateOf eliminable forms ..)
  case count => rw [leftCount, rightCount]

end Rule

namespace Sample

open PlanNode

/-- The orders under a condition that compares a zero with itself. -/
def compared (key id : Nat) (zero : Float64) : PlanNode :=
  .assemble key id (.filter ((Expr.literal (.float64 zero)).equal (.literal (.float64 zero)))) [orders]

/-- The customers of all pairs of such orders. -/
def pairCustomers (key id : Nat) (left right : PlanNode) : PlanNode :=
  .assemble (key + 1) (id + 1) (.aggregate itemCounts)
    [.assemble key id (.join .inner (.literal (.boolean true))) [left, right]]

/-- One node for both inputs of the pairs. -/
def sharedPairs : PlanNode := pairCustomers 2 2 (compared 1 1 ⟨0⟩) (compared 1 1 ⟨0⟩)

/-- A node for each input of the pairs, with one id and with zeros of both signs. -/
def separatePairs : PlanNode :=
  pairCustomers 3 5 (compared 1 4 ⟨0⟩) (compared 2 4 ⟨0x8000000000000000⟩)

theorem occurs_compared {node : PlanNode} (key id : Nat) (zero : Float64) :
    Occurs node (compared key id zero) ↔ node = compared key id zero ∨ node = orders := by
  rw [occurs_iff, compared]
  simp [assemble, occurs_orders]

theorem occurs_pairCustomers {node left right : PlanNode} (key id : Nat) :
    Occurs node (pairCustomers key id left right) ↔
      node ∈ pairCustomers key id left right :: (pairCustomers key id left right).inputs ∨
        Occurs node left ∨ Occurs node right := by
  rw [occurs_iff, pairCustomers]
  simp only [assemble, exists_eq_left, List.mem_cons, List.not_mem_nil, or_false]
  rw [occurs_iff]
  simp only [List.mem_cons, List.not_mem_nil, or_false, exists_eq_or_imp, exists_eq_left, or_assoc]

theorem occurs_sharedPairs {node : PlanNode} :
    Occurs node sharedPairs ↔
      node ∈ sharedPairs :: sharedPairs.inputs ++ [compared 1 1 ⟨0⟩, orders] := by
  rw [sharedPairs, occurs_pairCustomers, occurs_compared, or_self, List.mem_append,
    List.mem_pair]

theorem occurs_separatePairs {node : PlanNode} :
    Occurs node separatePairs ↔ node ∈ separatePairs :: separatePairs.inputs ++
      [compared 1 4 ⟨0⟩, compared 2 4 ⟨0x8000000000000000⟩, orders] := by
  rw [separatePairs, occurs_pairCustomers, occurs_compared, occurs_compared, List.mem_append]
  simp only [List.mem_cons, List.not_mem_nil, or_false]
  tauto

/-- Whatever the labels and the zeros are, every node is as it is built. -/
theorem pairCustomers_built (key id leftKey leftId rightKey rightId : Nat)
    (leftZero rightZero : Float64) :
    (pairCustomers key id (compared leftKey leftId leftZero)
      (compared rightKey rightId rightZero)).Built := by
  intro node occurs
  rw [occurs_pairCustomers, occurs_compared, occurs_compared] at occurs
  rcases occurs with above | (rfl | rfl) | (rfl | rfl)
  · rcases List.mem_pair.mp above with rfl | rfl <;> rfl
  all_goals rfl

theorem sharedPairs_valid : sharedPairs.Valid :=
  ⟨pairCustomers_built 2 2 1 1 1 1 _ _, coherent_of_listed (by decide) fun _ => occurs_sharedPairs.mp⟩

theorem separatePairs_valid : separatePairs.Valid :=
  ⟨pairCustomers_built 3 5 1 4 2 4 _ _,
    coherent_of_listed (by decide) fun _ => occurs_separatePairs.mp⟩

theorem sharedPairs_keysBelow : sharedPairs.KeysBelow 4 := by
  have below : ∀ node ∈ sharedPairs :: sharedPairs.inputs ++ [compared 1 1 ⟨0⟩, orders],
      node.key < 4 := by decide
  exact fun node occurs => below node (occurs_sharedPairs.mp occurs)

theorem separatePairs_keysBelow : separatePairs.KeysBelow 5 := by
  have below : ∀ node ∈ separatePairs :: separatePairs.inputs ++
      [compared 1 4 ⟨0⟩, compared 2 4 ⟨0x8000000000000000⟩, orders], node.key < 5 := by decide
  exact fun node occurs => below node (occurs_separatePairs.mp occurs)

theorem sharedPairs_beq_separatePairs : (sharedPairs == separatePairs) = true := by
  rw [beq_iff]
  rfl

end Sample

/-- `fire_indifferent` for an aggregate over a shared node and an equal aggregate over
two nodes, one of them with the other zero. -/
theorem Rule.fire_indifferent_pairs :
    let left := Sample.sharedPairs
    let right := Sample.separatePairs
    left.Valid ∧ right.Valid ∧ (left == right) = true ∧ left.KeysBelow 4 ∧ right.KeysBelow 5 ∧
    left.breadthFirst.length = 4 ∧ right.breadthFirst.length = 5 ∧
    ∃ leftReplacement rightReplacement leftEnd rightEnd leftNew rightNew,
      distinctElimination.fire ⟨left, []⟩ 10 4 = (.ok (some leftReplacement), leftEnd) ∧
      distinctElimination.fire ⟨right, []⟩ 20 5 = (.ok (some rightReplacement), rightEnd) ∧
      (leftReplacement == rightReplacement) = true ∧
      left.NewNodes leftReplacement 10 leftNew ∧ leftEnd.nextId = 16 ∧
      right.NewNodes rightReplacement 20 rightNew ∧ rightEnd.nextId = 26 := by
  intro left right
  have leftValid : left.Valid := Sample.sharedPairs_valid
  have rightValid : right.Valid := Sample.separatePairs_valid
  have same : (left == right) = true := Sample.sharedPairs_beq_separatePairs
  have leftBelow : left.KeysBelow 4 := Sample.sharedPairs_keysBelow
  have rightBelow : right.KeysBelow 5 := Sample.separatePairs_keysBelow
  obtain ⟨_, firings⟩ := fire_indifferent leftValid rightValid same leftBelow rightBelow 10 20
  obtain ⟨leftReplacement, rightReplacement, leftEnd, rightEnd, leftNew, rightNew, leftFired,
    rightFired, equal, count, ⟨leftNodes, leftUsed⟩, rightNodes, rightUsed⟩ :=
    firings ⟨left, []⟩ ⟨right, []⟩ rfl rfl
  have ended : (distinctElimination.fire ⟨Sample.sharedPairs, []⟩ 10 4).2.nextId = 16 := by
    decide +kernel
  rw [leftFired, leftUsed] at ended
  refine ⟨leftValid, rightValid, same, leftBelow, rightBelow, by decide +kernel, by decide +kernel,
    leftReplacement, rightReplacement, leftEnd, rightEnd, leftNew, rightNew, leftFired, rightFired,
    equal, leftNodes, ?_, rightNodes, ?_⟩
  · omega
  · omega

end QueryPlan
