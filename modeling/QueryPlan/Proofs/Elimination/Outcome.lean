import QueryPlan.Proofs.Elimination.Size

/-!
# Outcome of the elimination

Whatever node the elimination is bound to, and whatever was done in the firing
before, it has one of three outcomes. On an aggregate with a distinct call it
proposes a replacement that fits and ends without a failure. On an aggregate
without one it reports a broken obligation, and on any other operator that the
rule does not handle it; then the firing is as it was before.
-/

namespace QueryPlan

/-- An aggregate gives the group fields of its input and one field per call. -/
theorem Operator.fields_aggregate (grouping : Aggregate) (input : Schema) (others : List Schema) :
    ((Operator.aggregate grouping).fields (input :: others)).fields =
      input.fields.take grouping.groupCount ++ grouping.calls.map AggregateCall.field := rfl

namespace DistinctSelection

/-- The fields of a selection are those of the input at the selected columns. -/
theorem fields_projection (input : Schema) (ordinals : List Nat) (inputs : List Schema) :
    ((projection input ordinals).fields inputs).fields = ordinals.filterMap input.field? := by
  rw [projection_eq]
  simp only [Operator.fields, exprs, columns]
  induction ordinals with
  | nil => rfl
  | cons ordinal rest ih =>
      rw [List.filterMap_cons, List.filterMap_cons]
      cases input.field? ordinal with
      | none => exact ih
      | some field => exact congrArg (List.cons field) ih

/-- The first columns of a schema, read by their positions, are its first fields. -/
theorem filterMap_range (input : Schema) (count : Nat) :
    (List.range count).filterMap input.field? = input.fields.take count := by
  induction count with
  | zero => rfl
  | succ count ih =>
      rw [List.range_succ, List.filterMap_append, ih, List.take_add_one]
      rfl

/-- A selection starts with the group fields of the input. -/
theorem take_filterMap_ordinals {input : Schema} {groupCount : Nat} (args : List Nat)
    (wide : groupCount ≤ input.width) :
    ((ordinals groupCount args).filterMap input.field?).take groupCount =
      input.fields.take groupCount := by
  rw [← List.take_append_drop groupCount (ordinals groupCount args), take_ordinals,
    List.filterMap_append, filterMap_range]
  exact take_append_of_take wide

end DistinctSelection

namespace DistinctElimination

open PlanNode

variable {node input : PlanNode} {aggregate : Aggregate}

/-- An aggregate node starts with the group fields of its input. -/
theorem take_fields (checked : node.Checked) (eliminable : node.Eliminable aggregate input) :
    node.schema.fields.take aggregate.groupCount =
      input.schema.fields.take aggregate.groupCount := by
  rw [checked.schema_eq, eliminable.operator, eliminable.inputs, List.map_singleton,
    Operator.fields_aggregate]
  exact take_append_of_take eliminable.fits.groups

/-- The side of an argument list starts with the group fields of the input. -/
theorem take_fields_distinctSide (fits : aggregate.Fits input.schema.width) (args : List Nat)
    (key id : Nat) :
    ((distinctSide aggregate input args).place key id).schema.fields.take aggregate.groupCount =
      input.schema.fields.take aggregate.groupCount := by
  have selected := DistinctSelection.take_filterMap_ordinals args fits.groups
  have groups : aggregate.groupCount ≤
      (DistinctSelection.ordinals aggregate.groupCount args).length :=
    DistinctSelection.groupCount_le_length_ordinals
  simp only [distinctSide, DistinctSelection.template, Template.place, Template.placeAll, assemble,
    List.map_cons, Operator.fields_aggregate, DistinctSelection.fields_projection, List.map_nil,
    List.append_nil, List.take_take, Nat.min_eq_left groups, selected]
  exact take_append_of_take fits.groups

/-- An aggregate without arguments of its own has a replacement with its schema,
names included. -/
theorem schema_of_soleArguments?_none (eliminable : node.Eliminable aggregate input)
    (several : aggregate.soleArguments? = none) (key id : Nat) :
    ((templateOf node).place key id).schema = node.schema := by
  have renamed := @schema_templateOf (fun name => name) _ _ _ eliminable (.inr several) key id
  rwa [Schema.rename_self, Schema.rename_self] at renamed

/-- The replacement starts with the group fields of the node in any case. -/
theorem take_fields_templateOf (checked : node.Checked)
    (eliminable : node.Eliminable aggregate input) (key id : Nat) :
    ((templateOf node).place key id).schema.fields.take aggregate.groupCount =
      node.schema.fields.take aggregate.groupCount := by
  cases sole : aggregate.soleArguments? with
  | none => rw [schema_of_soleArguments?_none eliminable sole]
  | some args =>
      rw [templateOf_eq eliminable, replacement, sole, take_fields checked eliminable]
      exact take_fields_distinctSide eliminable.fits args key id

variable {firing : Firing}

/-- A proposal of the right types goes through. It fills an empty slot and
leaves a filled one as it is. -/
theorem perform_propose_of_types {proposed : PlanNode}
    (types : firing.binding.root.types = proposed.types) :
    ∃ later, Step.perform (Firing.propose proposed) firing = (.ok (), later) ∧
      later.proposal = some (firing.proposal.getD proposed) := by
  cases slot : firing.proposal with
  | none => exact ⟨_, perform_propose types slot, rfl⟩
  | some first => exact ⟨_, perform_propose_further types slot, slot⟩

/-- On an aggregate with a distinct call the action builds the placed template
and proposes it, whatever the firing did before. -/
theorem perform_action (eliminable : node.Eliminable aggregate input) (firing : Firing)
    (root : firing.binding.root = node) :
    ∃ later, Step.perform action firing = (.ok (), later) ∧
      later.proposal =
        some (firing.proposal.getD ((templateOf node).place firing.nextKey firing.nextId)) := by
  have typed := typed_templateOf eliminable
  rw [action_eq eliminable root]
  apply perform_propose_of_types
  rw [Template.types_place typed]
  exact congrArg types root

/-- On an aggregate without a distinct call the action breaks off at once. -/
theorem action_of_undistinct (checked : firing.binding.root.Checked)
    (operator : firing.binding.root.operator = .aggregate aggregate)
    (undistinct : aggregate.hasDistinctCall = false) :
    Step.perform action firing = (.error (.violation (.noDistinctCall name aggregate)), firing) := by
  obtain ⟨input, inputs, _⟩ := checked.aggregate_input operator
  have first : firing.binding.root.inputs[0]? = some input := by rw [inputs]; rfl
  have lists : aggregate.argumentLists = [] := Aggregate.argumentLists_eq_nil_iff.mpr undistinct
  rw [action, Step.perform_bind_of_ok (perform_operand_root firing)]
  simp only [operator]
  rw [Step.perform_bind_of_ok (Step.perform_index_of_some first firing), lists, eliminate,
    Step.perform_bind, Step.perform_violate]

/-- On any other operator the action breaks off at once. -/
theorem action_of_other (other : ∀ grouping, firing.binding.root.operator ≠ .aggregate grouping) :
    Step.perform action firing =
      (.error (.error (.invalidRule (.operator name firing.binding.root.operator))), firing) := by
  rw [action, Step.perform_bind_of_ok (perform_operand_root firing)]
  split
  · rename_i same
    exact absurd same (other _)
  · rfl

/-- The outcomes of the rule on a built node, from any state of the firing. Only
on an aggregate with a distinct call something is proposed: a replacement of
compatible fields, the same fields unless the calls make up a single list, and
the same group fields in any case. An empty slot gets this replacement, and a
filled one keeps what it holds. In the other cases no id is used and the slot is
left alone. -/
theorem action_outcome (firing : Firing) (checked : firing.binding.root.Checked) :
    let root := firing.binding.root
    (∀ aggregate, root.operator = .aggregate aggregate →
      (aggregate.hasDistinctCall = true → ∃ replacement emptied later,
        Step.perform action { firing with proposal := none } = (.ok (), emptied) ∧
        emptied.proposal = some replacement ∧
        Step.perform action firing = (.ok (), later) ∧
        later.proposal = some (firing.proposal.getD replacement) ∧
        root.schema.sameTypes replacement.schema = true ∧
        (¬aggregate.SingleList → replacement.schema = root.schema) ∧
        replacement.schema.fields.take aggregate.groupCount =
          root.schema.fields.take aggregate.groupCount) ∧
      (aggregate.hasDistinctCall = false → ∃ violation,
        Step.perform action firing = (.error (.violation violation), firing) ∧
        violation.message =
          "RemoveDistinctAggregateRule bound to an aggregate without distinct calls: " ++
            aggregate.text)) ∧
    ((∀ aggregate, root.operator ≠ .aggregate aggregate) →
      Step.perform action firing =
        (.error (.error (.invalidRule (.operator "RemoveDistinctAggregateRule" root.operator))),
          firing)) := by
  intro root
  refine ⟨?_, action_of_other⟩
  intro aggregate operator
  constructor
  · intro distinct
    obtain ⟨input, inputs, fits, types⟩ := checked.aggregate_input operator
    have eliminable : root.Eliminable aggregate input := ⟨operator, inputs, distinct, fits, types⟩
    -- The slot does not matter for what is proposed.
    obtain ⟨emptied, intoEmpty, first⟩ :=
      perform_action eliminable { firing with proposal := none } rfl
    obtain ⟨later, performed, kept⟩ := perform_action eliminable firing rfl
    refine ⟨_, emptied, later, intoEmpty, first, performed, kept, ?_, ?_,
      take_fields_templateOf checked eliminable _ _⟩
    · exact Schema.sameTypes_iff.mpr (Template.types_place (typed_templateOf eliminable) _ _).symm
    · intro several
      exact schema_of_soleArguments?_none eliminable
        (Aggregate.soleArguments?_eq_none_iff.mpr several) _ _
  · intro undistinct
    exact ⟨_, action_of_undistinct checked operator undistinct, rfl⟩

/-- `action_outcome` for a firing that already holds a replacement. -/
theorem action_outcome_customers :
    let firing : Firing := ⟨⟨Sample.customers, [Sample.orders]⟩, 2, 2, some Sample.customers, []⟩
    ∃ replacement emptied later,
      Step.perform action { firing with proposal := none } = (.ok (), emptied) ∧
      emptied.proposal = some replacement ∧
      Step.perform action firing = (.ok (), later) ∧
      later.proposal = some Sample.customers ∧
      Sample.customers.schema.sameTypes replacement.schema = true ∧
      (¬Sample.itemCounts.SingleList → replacement.schema = Sample.customers.schema) ∧
      replacement.schema.fields.take 1 = Sample.customers.schema.fields.take 1 :=
  ((action_outcome ⟨⟨Sample.customers, [Sample.orders]⟩, 2, 2, some Sample.customers, []⟩
    (Sample.customers_built _ .here)).1 Sample.itemCounts rfl).1 rfl

end DistinctElimination

end QueryPlan
