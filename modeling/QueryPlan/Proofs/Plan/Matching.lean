import QueryPlan.Proofs.Elimination.Meaning
import QueryPlan.Rule.Firing

/-!
# Matching patterns

A pattern matches at a node when the operand at its root accepts the operator of
the node and what is asked of the inputs holds of them (`Pattern.Matches`). A
match binds the nodes that stand where the operands stand: each operand is reached
by a path from the root of the pattern (`Pattern.paths`, in pre-order), and its
node by the same path from the matched node.

One list of nodes is enough to match a pattern (`Pattern.gather`): nodes are added
as soon as their operands accept them, and what a mismatch leaves behind is not
looked at.
-/

namespace QueryPlan

/-- The node that a path leads to, which gives the input to take at each step. -/
def PlanNode.descend? (node : PlanNode) : List Nat → Option PlanNode
  | [] => some node
  | index :: path => node.inputs[index]?.bind (descend? · path)

namespace Pattern

/-- Whether a pattern matches at a node, operand by operand. -/
inductive Matches : Pattern → PlanNode → Prop
  | any {accepts : Operator → Bool} {node : PlanNode} :
      accepts node.operator = true → Matches (.any accepts) node
  | leaf {accepts : Operator → Bool} {node : PlanNode} :
      accepts node.operator = true → node.inputs = [] → Matches (.leaf accepts) node
  | withInputs {accepts : Operator → Bool} {patterns : List Pattern} {node : PlanNode} :
      accepts node.operator = true → node.inputs.length = patterns.length →
      (∀ (index : Nat) (pattern : Pattern) (input : PlanNode), patterns[index]? = some pattern →
        node.inputs[index]? = some input → Matches pattern input) →
      Matches (.withInputs accepts patterns) node

mutual
/-- The paths to the operands of a pattern, in pre-order. -/
def paths : Pattern → List (List Nat)
  | any _ => [[]]
  | leaf _ => [[]]
  | withInputs _ inputs => [] :: pathsAll 0 inputs

/-- The paths to the operands of the patterns that stand for the inputs from
`index` on. -/
def pathsAll (index : Nat) : List Pattern → List (List Nat)
  | [] => []
  | pattern :: rest => pattern.paths.map (index :: ·) ++ pathsAll (index + 1) rest
end

mutual
/-- Matches a pattern while adding nodes to those that are bound already. Gives
whether it matches, and the list also after a mismatch. -/
def gather (bound : List PlanNode) : Pattern → PlanNode → Bool × List PlanNode
  | any accepts, node =>
    if accepts node.operator then (true, bound ++ [node]) else (false, bound)
  | leaf accepts, node =>
    if accepts node.operator then (node.inputs.isEmpty, bound ++ [node]) else (false, bound)
  | withInputs accepts inputs, node =>
    if !accepts node.operator then (false, bound)
    else if inputs.length = node.inputs.length then gatherAll (bound ++ [node]) inputs node.inputs
    else (false, bound ++ [node])

/-- Matches patterns with nodes in pairs, up to the first mismatch. -/
def gatherAll (bound : List PlanNode) : List Pattern → List PlanNode → Bool × List PlanNode
  | pattern :: patterns, node :: nodes =>
    match pattern.gather bound node with
    | (true, later) => gatherAll later patterns nodes
    | (false, later) => (false, later)
  | _, _ => (true, bound)
end

section Shape

mutual
theorem length_paths (pattern : Pattern) : pattern.paths.length = pattern.size := by
  match pattern with
  | .any _ => rfl
  | .leaf _ => rfl
  | .withInputs _ inputs => rw [paths, List.length_cons, length_pathsAll, size, Nat.add_comm]

theorem length_pathsAll (index : Nat) (patterns : List Pattern) :
    (pathsAll index patterns).length = sizeAll patterns := by
  match patterns with
  | [] => rfl
  | pattern :: rest =>
      rw [pathsAll, List.length_append, List.length_map, length_paths, length_pathsAll, sizeAll]
end

end Shape

section Match

/-- Several patterns match when each of them does. -/
theorem matchAll?_cons_eq_some_iff {pattern : Pattern} {patterns : List Pattern} {node : PlanNode}
    {nodes bound : List PlanNode} :
    matchAll? (pattern :: patterns) (node :: nodes) = some bound ↔
      ∃ first others, pattern.match? node = some first ∧ matchAll? patterns nodes = some others ∧
        bound = first ++ others := by
  rw [matchAll?]
  cases pattern.match? node with
  | none => simp
  | some first =>
      cases matchAll? patterns nodes with
      | none => simp
      | some others => simp [eq_comm]

mutual
/-- The bound nodes stand where the operands stand. -/
theorem map_descend?_paths {pattern : Pattern} {node : PlanNode} {bound : List PlanNode}
    (found : pattern.match? node = some bound) :
    pattern.paths.map node.descend? = bound.map some := by
  match pattern with
  | .any accepts =>
      rw [match?] at found
      split at found
      · rw [← Option.some.inj found]
        rfl
      · exact nomatch found
  | .leaf accepts =>
      rw [match?] at found
      split at found
      · rw [← Option.some.inj found]
        rfl
      · exact nomatch found
  | .withInputs accepts inputs =>
      rw [match?] at found
      split at found
      · obtain ⟨others, below, rfl⟩ := Option.map_eq_some_iff.mp found
        have inputsFound := map_descend?_pathsAll [] below rfl
        rw [paths, List.map_cons, List.map_cons, ← inputsFound]
        rfl
      · exact nomatch found

theorem map_descend?_pathsAll {patterns : List Pattern} {nodes bound : List PlanNode}
    {parent : PlanNode} (before : List PlanNode) (found : matchAll? patterns nodes = some bound)
    (inputs : parent.inputs = before ++ nodes) :
    (pathsAll before.length patterns).map parent.descend? = bound.map some := by
  match patterns, nodes with
  | [], [] =>
      rw [matchAll?] at found
      rw [← Option.some.inj found]
      rfl
  | pattern :: rest, node :: others =>
      obtain ⟨first, later, matched, matchedAll, rfl⟩ := matchAll?_cons_eq_some_iff.mp found
      have step (path : List Nat) :
          parent.descend? (before.length :: path) = node.descend? path := by
        rw [PlanNode.descend?, inputs, List.getElem?_append_right (Nat.le_refl _), Nat.sub_self]
        rfl
      have restInputs : parent.inputs = (before ++ [node]) ++ others := by
        rw [inputs, List.append_assoc, List.singleton_append]
      have restFound := map_descend?_pathsAll (before ++ [node]) matchedAll restInputs
      rw [List.length_append, List.length_singleton] at restFound
      rw [pathsAll, List.map_append, List.map_map, List.map_append, restFound,
        ← map_descend?_paths matched]
      simp only [Function.comp_def, step]
  | [], _ :: _ => exact nomatch found
  | _ :: _, [] => exact nomatch found
end

mutual
/-- There is a match exactly when the pattern matches. -/
theorem isSome_match?_iff (pattern : Pattern) (node : PlanNode) :
    (pattern.match? node).isSome = true ↔ pattern.Matches node := by
  match pattern with
  | .any accepts =>
      rw [match?]
      split
      · rename_i accepted
        exact ⟨fun _ => .any accepted, fun _ => rfl⟩
      · rename_i refused
        refine ⟨nofun, ?_⟩
        rintro ⟨accepted⟩
        exact absurd accepted refused
  | .leaf accepts =>
      rw [match?]
      split
      · rename_i accepted
        exact ⟨fun _ => .leaf accepted.1 accepted.2, fun _ => rfl⟩
      · rename_i refused
        refine ⟨nofun, ?_⟩
        intro isMatch
        cases isMatch with
        | leaf accepted childless => exact absurd ⟨accepted, childless⟩ refused
  | .withInputs accepts inputs =>
      rw [match?]
      split
      · rename_i accepted
        rw [Option.isSome_map, isSome_matchAll?_iff]
        constructor
        · rintro ⟨lengths, each⟩
          exact .withInputs accepted lengths each
        · intro isMatch
          cases isMatch with
          | withInputs _ lengths each => exact ⟨lengths, each⟩
      · rename_i refused
        refine ⟨nofun, ?_⟩
        intro isMatch
        cases isMatch with
        | withInputs accepted _ _ => exact absurd accepted refused

theorem isSome_matchAll?_iff (patterns : List Pattern) (nodes : List PlanNode) :
    (matchAll? patterns nodes).isSome = true ↔
      nodes.length = patterns.length ∧
        ∀ (index : Nat) (pattern : Pattern) (node : PlanNode), patterns[index]? = some pattern →
          nodes[index]? = some node → pattern.Matches node := by
  match patterns, nodes with
  | [], [] => simp [matchAll?]
  | [], _ :: _ => simp [matchAll?]
  | _ :: _, [] => simp [matchAll?]
  | pattern :: rest, node :: others =>
      have both : (matchAll? (pattern :: rest) (node :: others)).isSome = true ↔
          (pattern.match? node).isSome = true ∧ (matchAll? rest others).isSome = true := by
        rw [matchAll?]
        cases pattern.match? node <;> cases matchAll? rest others <;> simp
      rw [both, isSome_match?_iff, isSome_matchAll?_iff, List.length_cons, List.length_cons,
        Nat.add_right_cancel_iff]
      constructor
      · rintro ⟨first, lengths, each⟩
        refine ⟨lengths, ?_⟩
        intro index at? input found here
        cases index with
        | zero =>
            obtain rfl := Option.some.inj found
            obtain rfl := Option.some.inj here
            exact first
        | succ index => exact each index at? input found here
      · rintro ⟨lengths, each⟩
        exact ⟨each 0 pattern node rfl rfl, lengths, fun index => each (index + 1)⟩
end

mutual
/-- Matching into one list binds what a match binds, behind what is bound already. -/
theorem gather_eq (bound : List PlanNode) (pattern : Pattern) (node : PlanNode) :
    (∀ nodes, pattern.match? node = some nodes → pattern.gather bound node = (true, bound ++ nodes)) ∧
      (pattern.match? node = none → (pattern.gather bound node).1 = false) := by
  match pattern with
  | .any accepts =>
      rw [match?, gather]
      by_cases accepted : accepts node.operator = true
      · simp [accepted]
      · simp [accepted]
  | .leaf accepts =>
      rw [match?, gather]
      by_cases accepted : accepts node.operator = true
      · by_cases childless : node.inputs = []
        · simp [accepted, childless]
        · simp [accepted, childless]
      · simp [accepted]
  | .withInputs accepts inputs =>
      rw [match?, gather]
      by_cases accepted : accepts node.operator = true
      · by_cases lengths : inputs.length = node.inputs.length
        · have below := gatherAll_eq (bound ++ [node]) inputs node.inputs lengths
          simp only [accepted, lengths, if_true, Bool.not_true, Bool.false_eq_true, if_false]
          constructor
          · intro nodes found
            obtain ⟨others, matched, rfl⟩ := Option.map_eq_some_iff.mp found
            rw [below.1 others matched, List.append_assoc, List.singleton_append]
          · intro none
            exact below.2 (Option.map_eq_none_iff.mp none)
        · have unmatched : matchAll? inputs node.inputs = none := by
            rw [← Option.not_isSome_iff_eq_none, isSome_matchAll?_iff]
            exact fun both => lengths both.1.symm
          simp [accepted, lengths, unmatched]
      · simp [accepted]

theorem gatherAll_eq (bound : List PlanNode) (patterns : List Pattern) (nodes : List PlanNode)
    (lengths : patterns.length = nodes.length) :
    (∀ others, matchAll? patterns nodes = some others →
        gatherAll bound patterns nodes = (true, bound ++ others)) ∧
      (matchAll? patterns nodes = none → (gatherAll bound patterns nodes).1 = false) := by
  match patterns, nodes with
  | [], [] => simp [matchAll?, gatherAll]
  | [], _ :: _ => simp at lengths
  | _ :: _, [] => simp at lengths
  | pattern :: rest, node :: others =>
      have first := gather_eq bound pattern node
      rw [gatherAll, matchAll?]
      cases matched : pattern.match? node with
      | none =>
          have refused := first.2 matched
          rcases gathered : pattern.gather bound node with ⟨_ | _, later⟩
          · simp
          · rw [gathered] at refused
            exact nomatch refused
      | some nodes =>
          rw [first.1 nodes matched]
          have later := gatherAll_eq (bound ++ nodes) rest others (by simpa using lengths)
          cases all : matchAll? rest others with
          | none => simpa using later.2 all
          | some found => simpa [List.append_assoc] using later.1 found all
end

end Match

end Pattern

namespace Binding

variable {pattern : Pattern} {node : PlanNode} {binding : Binding}

/-- A binding holds the nodes of the match. -/
theorem nodes_of_bind? (bound : bind? pattern node = some binding) :
    pattern.match? node = some binding.nodes := by
  obtain ⟨nodes, found, rfl⟩ := Option.map_eq_some_iff.mp bound
  have stands := Pattern.map_descend?_paths found
  match nodes, pattern, found, stands with
  | first :: others, .any _, found, stands | first :: others, .leaf _, found, stands
  | first :: others, .withInputs _ _, found, stands =>
      -- The first operand is the root of the pattern, and the empty path leads to the node.
      have root : some node = some first := (List.cons.inj stands).1
      rw [found, ← Option.some.inj root]
      rfl
  | [], .any _, _, stands | [], .leaf _, _, stands | [], .withInputs _ _, _, stands =>
      exact nomatch stands

end Binding

/-- An operand is the node at its place in the binding, and a place beyond the
end is a violation that says so. -/
theorem Firing.perform_operand (index : Nat) (firing : Firing) :
    Step.perform (operand index) firing =
      match firing.binding.nodes[index]? with
      | some node => (.ok node, firing)
      | none => (.error (.violation (.indexOutOfRange firing.binding.nodes.length index)), firing) := by
  rw [operand, Step.perform_bind_of_ok (Step.perform_get firing), Step.perform_index]
  cases firing.binding.nodes[index]? <;> rfl

/-- Binding is matching: there is a binding exactly when the pattern matches. It
holds one node per operand, in pre-order, each reached from the bound node by the
path of its operand. A firing on the binding gives these nodes and reports any
other place. Matching into one list comes to the same. -/
theorem Binding.bind?_exact (pattern : Pattern) (node : PlanNode) :
    ((bind? pattern node).isSome = true ↔ pattern.Matches node) ∧
    (pattern.gather [] node).1 = (bind? pattern node).isSome ∧
    ∀ binding, bind? pattern node = some binding →
      (pattern.gather [] node).2 = binding.nodes ∧
      binding.nodes.length = pattern.size ∧ pattern.paths.length = pattern.size ∧
      ∀ firing : Firing, firing.binding = binding → ∀ index : Nat,
        (∀ path, pattern.paths[index]? = some path → ∃ bound,
          node.descend? path = some bound ∧ binding.nodes[index]? = some bound ∧
          Step.perform (Firing.operand index) firing = (.ok bound, firing)) ∧
        (pattern.size ≤ index → ∃ violation,
          Step.perform (Firing.operand index) firing = (.error (.violation violation), firing) ∧
          violation.message = "index out of bounds: the len is " ++ toString pattern.size ++
            " but the index is " ++ toString index) := by
  have gathered := pattern.gather_eq [] node
  refine ⟨?matching, ?oneList, ?bound⟩
  case matching =>
    rw [bind?, Option.isSome_map]
    exact pattern.isSome_match?_iff node
  case oneList =>
    rw [bind?, Option.isSome_map]
    cases found : pattern.match? node with
    | none => rw [gathered.2 found, Option.isSome_none]
    | some nodes => rw [gathered.1 nodes found, Option.isSome_some]
  case bound =>
    intro binding bound
    have found := nodes_of_bind? bound
    have stands := Pattern.map_descend?_paths found
    have count : binding.nodes.length = pattern.size := by
      have lengths := congrArg List.length stands
      rw [List.length_map, List.length_map, pattern.length_paths] at lengths
      exact lengths.symm
    refine ⟨?_, count, pattern.length_paths, ?_⟩
    · rw [gathered.1 _ found, List.nil_append]
    · rintro firing rfl index
      constructor
      · intro path listed
        have reached := congrArg (·[index]?) stands
        simp only [List.getElem?_map, listed, Option.map_some] at reached
        obtain ⟨bound, at?, same⟩ := Option.map_eq_some_iff.mp reached.symm
        refine ⟨bound, same.symm, at?, ?_⟩
        rw [Firing.perform_operand, at?]
      · intro beyond
        have missing : firing.binding.nodes[index]? = none :=
          List.getElem?_eq_none (count ▸ beyond)
        refine ⟨.indexOutOfRange pattern.size index, ?_, rfl⟩
        rw [Firing.perform_operand, missing, count]

/-- `bind?_exact` for a pattern of two operands over an aggregate of a table. -/
theorem Binding.bind?_exact_customers :
    let pattern := Pattern.withInputs (·.hasDistinctCall) [.leaf (·.arity == 0)]
    ∃ binding, bind? pattern Sample.customers = some binding ∧ binding.nodes.length = 2 ∧
      ∀ firing : Firing, firing.binding = binding →
        Step.perform (Firing.operand 1) firing = (.ok Sample.orders, firing) ∧
        ∃ violation,
          Step.perform (Firing.operand 2) firing = (.error (.violation violation), firing) ∧
          violation.message = "index out of bounds: the len is 2 but the index is 2" := by
  intro pattern
  have exact := bind?_exact pattern Sample.customers
  have isMatch : pattern.Matches Sample.customers := by
    refine .withInputs rfl rfl ?_
    intro index operand input found here
    cases index with
    | zero =>
        obtain rfl := Option.some.inj found
        obtain rfl := Option.some.inj here
        exact .leaf rfl rfl
    | succ index => simp at found
  obtain ⟨binding, bound⟩ := Option.isSome_iff_exists.mp (exact.1.mpr isMatch)
  obtain ⟨_, count, _, operands⟩ := exact.2.2 binding bound
  refine ⟨binding, bound, count, ?_⟩
  intro firing holds
  obtain ⟨node, reached, _, performed⟩ := (operands firing holds 1).1 [0] rfl
  obtain rfl := Option.some.inj reached
  obtain ⟨violation, violated, message⟩ := (operands firing holds 2).2 (Nat.le_refl 2)
  exact ⟨performed, violation, violated, message.trans (by decide)⟩

end QueryPlan
