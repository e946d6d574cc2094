import QueryPlan.Proofs.Plan.Validity
import QueryPlan.Proofs.Rows.Grouping

/-!
# Widths of rows

A built plan over tables with rows as wide as their declared fields has rows as
wide as its schema, as long as the open operators keep to their widths.
-/

namespace QueryPlan

namespace Interpretation

variable {interpretation : Interpretation}

/-- Whether the rows of every scanned table are as wide as the fields that the
scan declares. -/
def FitsTables (interpretation : Interpretation) (plan : PlanNode) : Prop :=
  ∀ node table fields, PlanNode.Occurs node plan → node.operator = .tableScan table fields →
    ∀ row ∈ interpretation.table table, row.length = fields.width

theorem FitsTables.of_occurs {node plan : PlanNode} (fits : interpretation.FitsTables plan)
    (occurs : PlanNode.Occurs node plan) : interpretation.FitsTables node :=
  fun scan table fields inside => fits scan table fields (inside.trans occurs)

theorem length_aggregateRows {aggregate : Aggregate} {rows : List Row} {row : Row}
    (wide : ∀ row ∈ rows, aggregate.groupCount ≤ row.length)
    (member : row ∈ interpretation.aggregateRows aggregate rows) :
    row.length = aggregate.groupCount + aggregate.calls.length := by
  rcases List.mem_map.mp member with ⟨key, present, rfl⟩
  rw [List.length_append, List.length_map, length_of_mem_groupKeys wide present]

theorem length_innerJoin {condition : Expr} {left right : Relation} {row : Row}
    (leftUniform : left.Uniform) (rightUniform : right.Uniform)
    (member : row ∈ innerJoin condition left.rows right.rows) :
    row.length = left.width + right.width := by
  rcases List.mem_flatMap.mp member with ⟨leftRow, leftMember, paired⟩
  rcases List.mem_map.mp (List.mem_filter.mp paired).1 with ⟨rightRow, rightMember, rfl⟩
  rw [List.length_append, leftUniform leftRow leftMember, rightUniform rightRow rightMember]

/-- What an operator makes of inputs of uniform width has as many columns as the
operator has output types. -/
theorem length_operatorRows (respects : interpretation.RespectsWidths) {operator : Operator}
    {inputs : List Relation} {inputTypes : List (List ScalarType)} {types : List ScalarType}
    (typed : operator.Typed inputTypes types) (widths : inputs.map (·.width) = inputTypes.map List.length)
    (uniform : ∀ input ∈ inputs, input.Uniform)
    (tables : ∀ table fields, operator = .tableScan table fields →
      ∀ row ∈ interpretation.table table, row.length = fields.width)
    {row : Row} (member : row ∈ interpretation.operatorRows operator inputs) :
    row.length = types.length := by
  cases typed with
  | tableScan table fields =>
      rw [tables table fields rfl row member, Schema.length_types]
  | @aggregate grouping only fits =>
      match inputs, widths with
      | [input], widths =>
          have width : input.width = only.length := by simpa using widths
          have inputUniform := uniform input (List.mem_singleton_self input)
          have wide : ∀ row ∈ input.rows, grouping.groupCount ≤ row.length := by
            intro row present
            rw [inputUniform row present, width]
            exact fits.groups
          rw [length_aggregateRows wide member, List.length_append, List.length_take,
            List.length_map, Nat.min_eq_left fits.groups]
  | @projection exprs names only lengths exprsTyped =>
      match inputs, widths with
      | [input], _ =>
          rcases List.mem_map.mp member with ⟨source, _, rfl⟩
          rw [List.length_map, List.length_map]
  | @join kind condition left right conditionTyped =>
      have count : inputs.length = 2 := by simpa using congrArg List.length widths
      match inputs, count with
      | [leftInput, rightInput], _ =>
          have equal : leftInput.width = left.length ∧ rightInput.width = right.length := by
            simpa using widths
          have leftUniform := uniform leftInput (by simp)
          have rightUniform := uniform rightInput (by simp)
          rw [List.length_append, ← equal.1, ← equal.2]
          cases kind with
          | inner => exact length_innerJoin leftUniform rightUniform member
          | left | right | full =>
              exact respects.outerJoin _ condition leftInput rightInput leftUniform rightUniform row
                member
  | @filter predicate only predicateTyped =>
      match inputs, widths with
      | [input], widths =>
          have width : input.width = types.length := by simpa using widths
          rw [← width]
          exact respects.filter predicate input (uniform input (by simp)) row member
  | limit count =>
      match inputs, widths with
      | [input], widths =>
          have width : input.width = types.length := by simpa using widths
          rw [← width]
          exact respects.limit count input (uniform input (by simp)) row member

/-- The rows of a built plan are as wide as its schema. -/
theorem uniform_of_built (respects : interpretation.RespectsWidths) {plan : PlanNode}
    (built : plan.Built) (tables : interpretation.FitsTables plan) :
    (interpretation.relation plan).Uniform := by
  induction plan using PlanNode.induct with
  | node key id operator inputs schema ih =>
      intro row member
      have typed := (built _ .here).typed
      have widths : (inputs.map interpretation.relation).map (·.width) =
          (inputs.map PlanNode.types).map List.length := by
        rw [List.map_map, List.map_map]
        apply List.map_congr_left
        intro input _
        exact (Schema.length_types input.schema).symm
      have uniform : ∀ input ∈ inputs.map interpretation.relation, input.Uniform := by
        intro relation present
        rcases List.mem_map.mp present with ⟨input, occurs, rfl⟩
        exact ih input occurs (built.input occurs) (tables.of_occurs (.input occurs))
      have width := length_operatorRows respects typed widths uniform
        (fun table fields scans => tables _ table fields .here scans)
        (by rwa [relation, rows_eq] at member)
      rw [width]
      exact Schema.length_types schema

/-- What the parents of a node see of it. Filters, limits and outer joins may
look at the width of an input, so types and rows go together. -/
def meaning (interpretation : Interpretation) (node : PlanNode) : List ScalarType × List Row :=
  (node.types, interpretation.rows node)

/-- A checked node may be assembled anew over inputs with the same meaning. -/
theorem meaning_assemble {node : PlanNode} (checked : node.Checked) {key id : Nat}
    {inputs : List PlanNode}
    (same : inputs.map interpretation.meaning = node.inputs.map interpretation.meaning) :
    interpretation.meaning (.assemble key id node.operator inputs) = interpretation.meaning node := by
  have sameTypes : inputs.map PlanNode.types = node.inputs.map PlanNode.types := by
    simpa only [List.map_map, Function.comp_def, meaning] using congrArg (List.map Prod.fst) same
  have sameRelations :
      inputs.map interpretation.relation = node.inputs.map interpretation.relation := by
    have relations := congrArg (List.map fun pair => (⟨pair.1.length, pair.2⟩ : Relation)) same
    simp only [meaning, List.map_map, Function.comp_def, PlanNode.types,
      Schema.length_types] at relations
    exact relations
  have sameRows : interpretation.rows (.assemble key id node.operator inputs) =
      interpretation.rows node := by
    rw [interpretation.rows_eq, interpretation.rows_eq node, ← sameRelations]
    rfl
  rw [meaning, meaning, (PlanNode.build_of_same_types checked sameTypes).2, sameRows]

end Interpretation

end QueryPlan
