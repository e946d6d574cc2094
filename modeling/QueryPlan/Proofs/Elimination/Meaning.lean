import QueryPlan.Proofs.Elimination.Firing
import QueryPlan.Proofs.Rows.Grouping

/-!
# The replacement keeps the rows

Every side of the join has one row for each group of the input, in the order of
the groups, and this row holds the group key and the results of the calls of one
kind on the rows of the group. For the plain calls this is what an aggregate is;
for the calls over one argument list the distinct rows of the group match the
distinct argument tuples. Joining the sides puts the results of one group
together, and the projection gives the row that the aggregate has for the group.
-/

namespace QueryPlan

open DistinctElimination

/-- A distinct call sees of a group what the plain call over the selection sees
of the distinct rows. -/
theorem AggregateCall.tuples_overSelection {call : AggregateCall} {groupCount : Nat}
    {rows : List Row} (distinct : call.distinct = true)
    (wide : ∀ row ∈ rows, groupCount ≤ row.length) (key : Row) :
    (call.overSelection (DistinctSelection.ordinals groupCount call.args)).tuples
        (distinctRows (DistinctSelection.ordinals groupCount call.args)
          (groupOf groupCount rows key)) =
      call.tuples (groupOf groupCount rows key) := by
  have found : ∀ arg ∈ call.args, (DistinctSelection.ordinals groupCount call.args)[
      (DistinctSelection.ordinals groupCount call.args).idxOf arg]? = some arg := by
    intro arg member
    exact DistinctSelection.getElem?_idxOf_ordinals (DistinctSelection.mem_ordinals.mpr (.inr member))
  simp only [tuples, overSelection, setArgs, distinct, if_true, Bool.false_eq_true, if_false,
    distinctRows]
  have faithful : ∀ left ∈ (groupOf groupCount rows key).map
        (·.columns (DistinctSelection.ordinals groupCount call.args)),
      ∀ right ∈ (groupOf groupCount rows key).map
        (·.columns (DistinctSelection.ordinals groupCount call.args)),
      (left.columns (call.args.map (DistinctSelection.ordinals groupCount call.args).idxOf) ==
        right.columns (call.args.map (DistinctSelection.ordinals groupCount call.args).idxOf)) =
      (left == right) := by
    intro left leftMember right rightMember
    rcases List.mem_map.mp leftMember with ⟨leftRow, leftPresent, rfl⟩
    rcases List.mem_map.mp rightMember with ⟨rightRow, rightPresent, rfl⟩
    rw [Row.columns_columns leftRow found, Row.columns_columns rightRow found]
    exact columns_beq_in_group wide (fun _ => DistinctSelection.mem_ordinals) leftPresent
      rightPresent
  rw [FirstOccurrence.map_eraseDups _ faithful, List.map_map]
  congr 1
  apply List.map_congr_left
  intro row _
  exact Row.columns_columns row found

namespace Interpretation

variable (interpretation : Interpretation) {aggregate : Aggregate} {input : PlanNode}

/-- The rows of a node over the inputs it is assembled from. -/
theorem rows_assemble (key id : Nat) (operator : Operator) (inputs : List PlanNode) :
    interpretation.rows (.assemble key id operator inputs) =
      interpretation.operatorRows operator (inputs.map interpretation.relation) :=
  interpretation.rows_eq _

/-- The result of a call of an aggregate on the group with a key. -/
def groupValue (aggregate : Aggregate) (rows : List Row) (key : Row) (call : AggregateCall) :
    Value :=
  interpretation.callValue call (groupOf aggregate.groupCount rows key)

/-- The columns of some sides for every group of the input. -/
def sideRows (aggregate : Aggregate) (rows : List Row) (kinds : List CallKind) : List Row :=
  (groupKeys aggregate.groupCount rows).map fun key =>
    aggregate.sides key (interpretation.groupValue aggregate rows key) kinds

theorem sideRows_singleton (aggregate : Aggregate) (rows : List Row) (kind : CallKind) :
    interpretation.sideRows aggregate rows [kind] =
      (groupKeys aggregate.groupCount rows).map fun key =>
        key ++ (aggregate.callsOf kind).map (interpretation.groupValue aggregate rows key) := by
  simp only [sideRows, Aggregate.sides, List.flatMap_singleton]

theorem rows_plainSide (key id : Nat) :
    interpretation.rows ((plainSide aggregate input).place key id) =
      interpretation.sideRows aggregate (interpretation.rows input) [none] := by
  rw [sideRows_singleton]
  simp only [plainSide, Template.place, Template.placeAll]
  rw [rows_assemble]
  rfl

/-- Each row of a selection stands for the rows with the same selected columns. -/
theorem rows_selection {ordinals : List Nat} (nonempty : ordinals ≠ [])
    (bounded : ∀ ordinal ∈ ordinals, ordinal < input.schema.width) (key id : Nat) :
    interpretation.rows ((DistinctSelection.template input ordinals).place key id) =
      distinctRows ordinals (interpretation.rows input) := by
  have projected : ∀ row : Row, (DistinctSelection.exprs input.schema ordinals).map (·.value row) =
      row.columns ordinals := by
    intro row
    apply DistinctSelection.map_exprs bounded
    intro ordinal field _
    exact Expr.value_column row ordinal field.type
  simp only [DistinctSelection.template, Template.place, Template.placeAll,
    DistinctSelection.projection_eq]
  rw [rows_assemble, List.map_singleton, relation, rows_assemble]
  simp only [operatorRows, List.map_singleton, aggregateRows, List.map_nil, List.append_nil,
    List.map_id', projected]
  exact groupKeys_columns nonempty _

theorem rows_distinctSide (fits : aggregate.Fits input.schema.width) {args : List Nat}
    (listed : args ∈ aggregate.argumentLists)
    (wide : ∀ row ∈ interpretation.rows input, aggregate.groupCount ≤ row.length) (key id : Nat) :
    interpretation.rows ((distinctSide aggregate input args).place key id) =
      interpretation.sideRows aggregate (interpretation.rows input) [some args] := by
  have bounded := fits.ordinals_bounded listed
  have nonempty : DistinctSelection.ordinals aggregate.groupCount args ≠ [] := by
    rcases Aggregate.mem_argumentLists.mp listed with ⟨call, member, distinct, rfl⟩
    obtain ⟨arg, rest, args⟩ : ∃ arg rest, call.args = arg :: rest := by
      cases args : call.args with
      | nil =>
          have plain := ((fits.calls call member).argless args).1
          rw [distinct] at plain
          exact Bool.noConfusion plain
      | cons arg rest => exact ⟨arg, rest, rfl⟩
    have selected : arg ∈ DistinctSelection.ordinals aggregate.groupCount call.args :=
      DistinctSelection.mem_ordinals.mpr (.inr (by simp [args]))
    exact List.ne_nil_of_mem selected
  rw [sideRows_singleton]
  simp only [distinctSide, Template.place, Template.placeAll]
  rw [rows_assemble, List.map_singleton, relation, interpretation.rows_selection nonempty bounded]
  simp only [operatorRows, aggregateRows]
  rw [groupKeys_distinctRows DistinctSelection.take_ordinals wide]
  apply List.map_congr_left
  intro group _
  rw [List.map_map]
  congr 1
  apply List.map_congr_left
  intro call member
  rcases Aggregate.kind_eq_some_iff.mp (Aggregate.mem_callsOf.mp member).2 with ⟨distinct, rfl⟩
  simp only [Function.comp_apply, groupValue, callValue]
  rw [groupOf_distinctRows DistinctSelection.take_ordinals wide,
    AggregateCall.tuples_overSelection distinct wide]
  rfl

/-- The condition of a join holds where the rows on both sides start with equal
group keys. -/
theorem holds_joinCondition (fits : aggregate.Fits input.schema.width) {row leftKey rightKey : Row}
    {start : Nat} (leftWidth : leftKey.length = aggregate.groupCount)
    (rightWidth : rightKey.length = aggregate.groupCount)
    (leftColumns : ∀ index, index < aggregate.groupCount → row.column index = leftKey.column index)
    (rightColumns : ∀ index, index < aggregate.groupCount →
      row.column (start + index) = rightKey.column index) :
    (joinCondition (input.schema.fields.take aggregate.groupCount) start).holds row =
      (leftKey == rightKey) := by
  have wide := fits.groups
  rw [joinCondition, Expr.holds_conjunction, Bool.eq_iff_iff,
    Row.beq_iff_columns leftWidth rightWidth, List.all_eq_true]
  constructor
  · intro all index bound
    have inside : index < (input.schema.fields.take aggregate.groupCount).length := by
      rw [List.length_take]
      exact Nat.lt_min.mpr ⟨bound, Nat.lt_of_lt_of_le bound wide⟩
    have holds := all _ (List.mem_mapIdx.mpr ⟨index, inside, rfl⟩)
    rw [Expr.holds, Expr.value_equal, Value.isTrue_boolean, Expr.value_column, Expr.value_column,
      leftColumns index bound, rightColumns index bound] at holds
    exact holds
  · intro equal condition member
    rcases List.mem_mapIdx.mp member with ⟨index, inside, rfl⟩
    have bound : index < aggregate.groupCount := by
      rw [List.length_take] at inside
      omega
    rw [Expr.holds, Expr.value_equal, Value.isTrue_boolean, Expr.value_column, Expr.value_column,
      leftColumns index bound, rightColumns index bound]
    exact equal index bound

/-- The joined sides start with the group key. -/
theorem column_sides {key : Row} {value : AggregateCall → Value} {kinds : List CallKind}
    (nonempty : kinds ≠ []) {index : Nat} (bound : index < key.length) :
    Row.column (aggregate.sides key value kinds) index = key.column index := by
  rw [Row.column, Aggregate.getElem?_sides_group nonempty bound]
  rfl

theorem rows_joinSide (fits : aggregate.Fits input.schema.width)
    (wide : ∀ row ∈ interpretation.rows input, aggregate.groupCount ≤ row.length)
    {before after : List CallKind} {args : List Nat} {left : Template} (nonempty : before ≠ [])
    (split : aggregate.kinds = before ++ some args :: after)
    (leftRows : ∀ key id, interpretation.rows (left.place key id) =
      interpretation.sideRows aggregate (interpretation.rows input) before) (key id : Nat) :
    interpretation.rows ((joinSide aggregate input left args).place key id) =
      interpretation.sideRows aggregate (interpretation.rows input) (before ++ [some args]) := by
  have listed : args ∈ aggregate.argumentLists := by
    have member : some args ∈ aggregate.kinds := by simp [split]
    simpa [Aggregate.kinds] using member
  simp only [joinSide, Template.place, Template.placeAll]
  rw [rows_assemble, List.map_cons, List.map_singleton, relation, relation, leftRows,
    interpretation.rows_distinctSide fits listed wide]
  simp only [operatorRows, sideRows]
  rw [innerJoin_diagonal (groupKeys_pairwise _ _)]
  · apply List.map_congr_left
    intro group _
    exact (Aggregate.sides_append before [some args]).symm
  · intro leftKey leftMember rightKey rightMember
    have leftWidth := length_of_mem_groupKeys wide leftMember
    have rightWidth := length_of_mem_groupKeys wide rightMember
    have start : aggregate.sideStart (some args) = (aggregate.sides leftKey
        (interpretation.groupValue aggregate (interpretation.rows input) leftKey) before).length := by
      rw [aggregate.sideStart_eq split, Aggregate.length_sides leftWidth]
    apply holds_joinCondition fits leftWidth rightWidth
    · intro index bound
      have inside : index < leftKey.length := by rwa [leftWidth]
      have columns : (aggregate.sides leftKey (interpretation.groupValue aggregate
          (interpretation.rows input) leftKey) before)[index]? = leftKey[index]? :=
        aggregate.getElem?_sides_group nonempty inside
      have side := (List.getElem?_eq_some_iff.mp
        (columns.trans (List.getElem?_eq_getElem inside))).1
      rw [Row.column_append_left _ side, column_sides nonempty inside]
    · intro index bound
      have inside : index < rightKey.length := by rwa [rightWidth]
      rw [start, Row.column_append_right, column_sides (List.cons_ne_nil _ _) inside]

/-- The projection over the joined sides takes the row of each group together. -/
theorem map_outputColumns (fits : aggregate.Fits input.schema.width) {key : Row}
    {value : AggregateCall → Value} (keyWidth : key.length = aggregate.groupCount) :
    (outputColumns aggregate input.schema).map
        (·.value (aggregate.sides key value aggregate.kinds)) =
      key ++ aggregate.calls.map value := by
  have wide : aggregate.groupCount ≤ input.schema.fields.length := fits.groups
  rw [outputColumns, List.map_append]
  congr 1
  · apply List.ext_getElem
    · rw [List.length_map, List.length_mapIdx, List.length_take, Nat.min_eq_left wide, keyWidth]
    · intro index _ inside
      rw [List.getElem_map, List.getElem_mapIdx, Expr.value_column,
        column_sides Aggregate.kinds_ne_nil inside, Row.column, List.getElem?_eq_getElem inside]
      rfl
  · apply map_mapIdx_eq_map
    intro index call found
    rw [Expr.value_column, Row.column, Aggregate.getElem?_callColumn keyWidth found]
    rfl

theorem rows_joined (fits : aggregate.Fits input.schema.width)
    (wide : ∀ row ∈ interpretation.rows input, aggregate.groupCount ≤ row.length)
    (names : List String) (key id : Nat) :
    interpretation.rows ((joined aggregate input names).place key id) =
      interpretation.aggregateRows aggregate (interpretation.rows input) := by
  have sides := foldl_joinSide aggregate input (motive := fun kinds template =>
      ∀ key id, interpretation.rows (template.place key id) =
        interpretation.sideRows aggregate (interpretation.rows input) kinds)
    (interpretation.rows_plainSide)
    (fun before args after left nonempty split =>
      interpretation.rows_joinSide fits wide nonempty split)
  simp only [joined, Template.place, Template.placeAll]
  rw [rows_assemble, List.map_singleton, relation, sides]
  simp only [operatorRows, sideRows, aggregateRows]
  rw [List.map_map]
  apply List.map_congr_left
  intro group member
  exact map_outputColumns fits (length_of_mem_groupKeys wide member)

/-- The template of an eliminable node has the rows of the node, wherever it is
placed. -/
theorem rows_templateOf {node : PlanNode} (eliminable : node.Eliminable aggregate input)
    (uniform : (interpretation.relation input).Uniform) (key id : Nat) :
    interpretation.rows ((templateOf node).place key id) = interpretation.rows node := by
  have fits := eliminable.fits
  have wide : ∀ row ∈ interpretation.rows input, aggregate.groupCount ≤ row.length := by
    intro row member
    have width : row.length = input.schema.width := uniform row member
    rw [width]
    exact fits.groups
  have original : interpretation.rows node =
      interpretation.aggregateRows aggregate (interpretation.rows input) := by
    rw [rows_eq, eliminable.operator, eliminable.inputs]
    rfl
  rw [templateOf_eq eliminable, original, replacement]
  cases sole : aggregate.soleArguments? with
  | none => exact interpretation.rows_joined fits wide _ key id
  | some args =>
      rcases Aggregate.callsOf_eq_calls sole with ⟨all, single⟩
      have listed : args ∈ aggregate.argumentLists := by simp [single]
      have side := interpretation.rows_distinctSide fits listed wide key id
      rw [sideRows_singleton, all] at side
      exact side

/-- Firing the rule on a built aggregate with a distinct call gives a
replacement with the same rows in the same order, whatever the tables, the
aggregate functions and the other operators are. -/
theorem fire_preserves_rows {node : PlanNode} (built : node.Built)
    (distinct : node.operator.hasDistinctCall = true)
    (uniform : ∀ input ∈ node.inputs, (interpretation.relation input).Uniform)
    (nextId nextKey : Nat) :
    ∃ binding replacement firing,
      Binding.bind? Rule.distinctElimination.pattern node = some binding ∧
      Rule.distinctElimination.fire binding nextId nextKey = (.ok (some replacement), firing) ∧
      interpretation.rows replacement = interpretation.rows node := by
  rcases (built node .here).eliminable distinct with ⟨aggregate, input, eliminable⟩
  refine ⟨⟨node, []⟩, _, _, ?_, fire_eq eliminable nextId nextKey, ?_⟩
  · rw [bind?_pattern, if_pos distinct]
  · apply interpretation.rows_templateOf eliminable
    apply uniform
    rw [eliminable.inputs]
    exact List.mem_singleton_self input

end Interpretation

namespace Sample

/-- A table with two rows for one customer and item. -/
def orders : PlanNode :=
  .assemble 0 0 (.tableScan "orders" ⟨[⟨"customer", .utf8⟩, ⟨"item", .int64⟩]⟩) []

/-- Distinct items and all items of every customer. -/
def itemCounts : Aggregate :=
  ⟨1, [⟨.count, true, [1], .int64⟩, ⟨.count, false, [1], .int64⟩]⟩

def customers : PlanNode := .assemble 1 1 (.aggregate itemCounts) [orders]

theorem itemCounts_fits : itemCounts.Fits orders.types.length := by
  refine ⟨by decide, ?_⟩
  intro call member
  simp only [itemCounts, List.mem_cons, List.not_mem_nil, or_false] at member
  rcases member with rfl | rfl
  · exact ⟨by simp, by decide⟩
  · exact ⟨by simp, by decide⟩

theorem customers_built : customers.Built := by
  have scanned : orders.Built := PlanNode.built_assemble (.tableScan _ _) (by simp)
  apply PlanNode.built_assemble (.aggregate itemCounts_fits)
  intro input member
  obtain rfl : input = orders := List.mem_singleton.mp member
  exact scanned

theorem occurs_orders {node : PlanNode} : node.Occurs orders ↔ node = orders := by
  rw [PlanNode.occurs_iff, orders]
  simp [PlanNode.assemble]

theorem occurs_customers {node : PlanNode} :
    node.Occurs customers ↔ node = customers ∨ node = orders := by
  rw [PlanNode.occurs_iff, customers]
  simp [PlanNode.assemble, occurs_orders]

/-- Counting functions over one table, with filters that keep every row. -/
def counting : Interpretation where
  table _ := [[.literal (.utf8 "Ann"), .literal (.int64 1)], [.literal (.utf8 "Ann"), .literal (.int64 1)],
    [.literal (.utf8 "Bob"), .null]]
  aggregate _ _ tuples := .literal (.int64 (.ofNat tuples.length))
  filter _ input := input.rows
  limit count input := input.rows.take count
  outerJoin _ _ _ _ := []

theorem length_of_mem_table {table : String} {row : Row} (member : row ∈ counting.table table) :
    row.length = 2 := by
  simp only [counting, List.mem_cons, List.not_mem_nil, or_false] at member
  rcases member with rfl | rfl | rfl <;> rfl

end Sample

/-- The hypotheses of `fire_preserves_rows` hold of a plan over a table. -/
theorem fire_preserves_rows_customers :
    ∃ binding replacement firing,
      Binding.bind? Rule.distinctElimination.pattern Sample.customers = some binding ∧
      Rule.distinctElimination.fire binding 2 2 = (.ok (some replacement), firing) ∧
      Sample.counting.rows replacement = Sample.counting.rows Sample.customers := by
  apply Sample.counting.fire_preserves_rows Sample.customers_built rfl
  intro input member row present
  obtain rfl : input = Sample.orders := List.mem_singleton.mp member
  exact @Sample.length_of_mem_table "orders" row present

end QueryPlan
