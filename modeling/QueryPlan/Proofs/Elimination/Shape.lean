import Mathlib.Data.List.Forall2
import QueryPlan.Proofs.Elimination.Selection

/-!
# Shape of the replacement

What the elimination puts in the place of an aggregate, said without templates.
When all calls are distinct and over one argument list, it is an aggregate over
a selection of the input (`IsSideOver`). Otherwise it is a projection over a
left-deep chain of inner joins (`IsJoinChain`): the aggregate of the plain calls,
joined with one side for each argument list, in the order in which the lists
first occur. The chain is followed join by join, with the columns that have been
joined so far.
-/

namespace QueryPlan

open PlanNode DistinctElimination

namespace Aggregate

/-- The calls that are not distinct, in order. -/
def plainCalls (aggregate : Aggregate) : List AggregateCall :=
  aggregate.calls.filter (!·.distinct)

/-- The distinct calls over an argument list, in order. -/
def callsOver (aggregate : Aggregate) (args : List Nat) : List AggregateCall :=
  aggregate.calls.filter fun call => call.distinct && call.args == args

/-- Number of columns of the side of the plain calls joined with the sides of
some argument lists: each side has the group columns and its calls. -/
def joinedWidth (aggregate : Aggregate) : (lists : List (List Nat)) → Nat
  | [] => aggregate.groupCount + aggregate.plainCalls.length
  | args :: lists =>
    aggregate.groupCount + (aggregate.callsOver args).length + aggregate.joinedWidth lists

end Aggregate

/-- Whether a call is another one made plain, which reads every argument at its
place among the columns of a selection. -/
structure AggregateCall.IsPlainOver (ordinals : List Nat) (original plain : AggregateCall) :
    Prop where
  function : plain.function = original.function
  undistinct : plain.distinct = false
  resultType : plain.resultType = original.resultType
  args : plain.args.map some = original.args.map (ordinals.idxOf? ·)

/-- Whether a condition is the left-associative `AND` of `$i = $(width + i)` for
the group columns, or true when there are none. -/
def IsGroupCondition (input : Schema) (groupCount width : Nat) (condition : Expr) : Prop :=
  ∃ equalities : List Expr, equalities.length = groupCount ∧
    (∀ (index : Nat) (field : Field), index < groupCount → input.field? index = some field →
      equalities[index]? = some
        (.call .equals [.column index field.type, .column (width + index) field.type])) ∧
    condition =
      match equalities with
      | [] => .literal (.boolean true)
      | first :: rest => rest.foldl (fun left right => .call .and [left, right]) first

/-- Whether a node aggregates the distinct calls over an argument list, made
plain, over the selection of the group columns and the arguments. -/
def IsSideOver (aggregate : Aggregate) (input : PlanNode) (args : List Nat) (node : PlanNode) :
    Prop :=
  ∃ calls selection projection exprs names ordinals,
    node.operator = .aggregate ⟨aggregate.groupCount, calls⟩ ∧ node.inputs = [selection] ∧
    selection.operator = .aggregate ⟨ordinals.length, []⟩ ∧ selection.inputs = [projection] ∧
    projection.operator = .projection exprs names ∧ projection.inputs = [input] ∧
    (∃ firing, (Step.perform (Firing.selectDistinct input aggregate.groupCount args) firing).1 =
      .ok (selection, ordinals)) ∧
    List.Forall₂ (AggregateCall.IsPlainOver ordinals) (aggregate.callsOver args) calls

/-- Whether a node joins the aggregate of the plain calls with the sides of some
argument lists, one after the other. -/
inductive IsJoinChain (aggregate : Aggregate) (input : PlanNode) : List (List Nat) → PlanNode → Prop
  | plain {node : PlanNode} :
      node.operator = .aggregate ⟨aggregate.groupCount, aggregate.plainCalls⟩ →
      node.inputs = [input] → IsJoinChain aggregate input [] node
  | join {lists : List (List Nat)} {args : List Nat} {left right node : PlanNode}
      {condition : Expr} :
      IsJoinChain aggregate input lists left → IsSideOver aggregate input args right →
      node.operator = .join .inner condition → node.inputs = [left, right] →
      left.schema.width = aggregate.joinedWidth lists →
      IsGroupCondition input.schema aggregate.groupCount left.schema.width condition →
      IsJoinChain aggregate input (lists ++ [args]) node

/-- Whether expressions read the fields of an aggregate off the joined sides:
the group columns from the first side, a plain call from there too, and a
distinct call from the side of its argument list, where it stands behind the
group columns and the earlier calls of the same side. -/
structure RestoresFields (aggregate : Aggregate) (input : Schema) (exprs : List Expr) : Prop where
  length : exprs.length = aggregate.groupCount + aggregate.calls.length
  group : ∀ index field, index < aggregate.groupCount → input.field? index = some field →
    exprs[index]? = some (.column index field.type)
  plain : ∀ (index : Nat) (call : AggregateCall), aggregate.calls[index]? = some call →
    call.distinct = false → exprs[aggregate.groupCount + index]? = some
      (.column
        (aggregate.groupCount + (aggregate.calls.take index).countP (!·.distinct))
        call.resultType)
  distinct : ∀ (index : Nat) (call : AggregateCall) (before after : List (List Nat)),
    aggregate.calls[index]? = some call → call.distinct = true →
    aggregate.argumentLists = before ++ call.args :: after →
    exprs[aggregate.groupCount + index]? = some
      (.column
        (aggregate.joinedWidth before + aggregate.groupCount +
          (aggregate.calls.take index).countP fun other =>
            other.distinct && other.args == call.args)
        call.resultType)

namespace Aggregate

variable {aggregate : Aggregate}

theorem kind_beq_some (call : AggregateCall) (args : List Nat) :
    (call.kind == some args) = (call.distinct && call.args == args) := by
  rw [AggregateCall.kind]
  cases call.distinct with
  | false => rfl
  | true => exact Option.some_beq_some

theorem callsOf_none : aggregate.callsOf none = aggregate.plainCalls := by
  simp only [callsOf, plainCalls, kind_beq_none]

theorem callsOf_some (args : List Nat) :
    aggregate.callsOf (some args) = aggregate.callsOver args := by
  simp only [callsOf, callsOver, kind_beq_some]

theorem sidesWidth_eq (lists : List (List Nat)) :
    aggregate.sidesWidth (none :: lists.map some) = aggregate.joinedWidth lists := by
  induction lists with
  | nil => simp only [List.map_nil, sidesWidth, sideWidth, callsOf_none, joinedWidth, Nat.add_zero]
  | cons args rest ih =>
      rw [sidesWidth] at ih
      rw [List.map_cons, sidesWidth, sidesWidth, joinedWidth, ← ih, sideWidth, sideWidth, callsOf_some]
      omega

/-- The side of an argument list starts behind the sides of the lists before it. -/
theorem sideStart_some {before after : List (List Nat)} {args : List Nat}
    (split : aggregate.argumentLists = before ++ args :: after) :
    aggregate.sideStart (some args) = aggregate.joinedWidth before := by
  rw [← sidesWidth_eq]
  apply aggregate.sideStart_eq
  rw [kinds, split, List.map_append, List.map_cons, List.cons_append]

/-- All calls are distinct and there is one argument list exactly when there are
arguments that all calls share. -/
theorem soleArguments?_isSome_iff :
    aggregate.soleArguments?.isSome = true ↔
      (∀ call ∈ aggregate.calls, call.distinct = true) ∧ aggregate.argumentLists.length = 1 := by
  have undistinct : aggregate.callsOf none = [] ↔ ∀ call ∈ aggregate.calls, call.distinct = true := by
    rw [callsOf_none, plainCalls, List.filter_eq_nil_iff]
    simp
  rw [soleArguments?, ← undistinct, List.length_eq_one_iff]
  constructor
  · intro some
    split at some
    · rename_i none single
      exact ⟨none, _, single⟩
    · simp at some
  · rintro ⟨none, args, single⟩
    rw [none, single]
    rfl

end Aggregate

namespace DistinctElimination

variable {aggregate : Aggregate} {input : PlanNode}

/-- The condition of a join compares the group columns of both of its inputs. -/
theorem isGroupCondition_joinCondition (wide : aggregate.groupCount ≤ input.schema.width)
    (start : Nat) :
    IsGroupCondition input.schema aggregate.groupCount start
      (joinCondition (input.schema.fields.take aggregate.groupCount) start) := by
  let equalities := (input.schema.fields.take aggregate.groupCount).mapIdx fun index field =>
    (Expr.column index field.type).equal (.column (start + index) field.type)
  refine ⟨equalities, ?_, ?_, ?_⟩
  · simp only [equalities, List.length_mapIdx, List.length_take]
    exact Nat.min_eq_left wide
  · intro index field bound found
    rw [Schema.field?] at found
    simp only [equalities, List.getElem?_mapIdx, List.getElem?_take_of_lt bound, found]
    rfl
  · rw [joinCondition]
    change (Expr.conjunction equalities).getD _ = _
    cases equalities with
    | nil => rfl
    | cons first rest => rfl

/-- A placed side aggregates the distinct calls over its argument list. -/
theorem isSideOver_distinctSide (fits : aggregate.Fits input.schema.width) {args : List Nat}
    (listed : args ∈ aggregate.argumentLists) (key id : Nat) :
    IsSideOver aggregate input args ((distinctSide aggregate input args).place key id) := by
  have complete : ∀ ordinal ∈ DistinctSelection.asked aggregate.groupCount args,
      ordinal < input.schema.width := by
    intro ordinal member
    apply fits.ordinals_bounded listed
    rwa [DistinctSelection.ordinals_eq, List.mem_eraseDups]
  have selected := Firing.perform_selectDistinct_complete complete
    (.start ⟨input, []⟩ id key)
  refine ⟨_, _, _, _, _, _, rfl, rfl, rfl, rfl, DistinctSelection.projection_eq _ _, rfl,
    ⟨_, congrArg Prod.fst selected⟩, ?_⟩
  rw [Aggregate.callsOf_some, List.forall₂_map_right_iff, List.forall₂_same]
  intro call member
  refine ⟨rfl, rfl, rfl, ?_⟩
  simp only [AggregateCall.overSelection, AggregateCall.setArgs, List.map_map]
  apply List.map_congr_left
  intro arg isArg
  have selectedArg : arg ∈ DistinctSelection.ordinals aggregate.groupCount args := by
    have matching := (List.mem_filter.mp member).2
    rw [Bool.and_eq_true, beq_iff_eq] at matching
    exact DistinctSelection.mem_ordinals.mpr (.inr (matching.2 ▸ isArg))
  rw [Function.comp_apply, eq_comm, DistinctSelection.idxOf?_ordinals_iff]
  exact DistinctSelection.getElem?_idxOf_ordinals selectedArg

/-- The placed sides make up a chain of joins, one further side at a time. Their
types tell how many columns are joined so far. -/
theorem isJoinChain_sides (fits : aggregate.Fits input.schema.width) (key id : Nat) :
    IsJoinChain aggregate input aggregate.argumentLists
      ((aggregate.argumentLists.foldl (joinSide aggregate input)
        (plainSide aggregate input)).place key id) := by
  have chains := foldl_joinSide aggregate input (motive := fun kinds template =>
    template.Typed (sideTypes aggregate input kinds) ∧
      ∃ lists : List (List Nat), kinds = none :: lists.map some ∧
        ∀ key id, IsJoinChain aggregate input lists (template.place key id)) (by
      refine ⟨typed_plainSide fits, [], rfl, ?_⟩
      intro key id
      refine .plain ?_ rfl
      rw [← Aggregate.callsOf_none]
      rfl) (by
      rintro before args after left nonempty split ⟨typed, lists, rfl, chain⟩
      refine ⟨typed_joinSide fits split typed, lists ++ [args], by simp, ?_⟩
      intro key id
      have listed : args ∈ aggregate.argumentLists := by
        have member : some args ∈ aggregate.kinds := by simp [split]
        simpa [Aggregate.kinds] using member
      have width : (left.place key id).schema.width = aggregate.joinedWidth lists := by
        rw [← Schema.length_types, ← PlanNode.types, Template.types_place typed, sideTypes,
          Aggregate.length_sides (length_groupTypes fits), Aggregate.sidesWidth_eq]
      have start : aggregate.sideStart (some args) = (left.place key id).schema.width := by
        rw [width, ← Aggregate.sidesWidth_eq, aggregate.sideStart_eq split]
      refine .join (chain key id) (isSideOver_distinctSide fits listed _ _) rfl rfl width ?_
      rw [← start]
      exact isGroupCondition_joinCondition fits.groups _)
  obtain ⟨_, lists, all, chain⟩ := chains
  have same := Aggregate.argumentLists_of_kinds all
  rw [same]
  exact same ▸ chain key id

/-- The columns of the projection on top are where the calls have gone. -/
theorem restoresFields_outputColumns (wide : aggregate.groupCount ≤ input.schema.width) :
    RestoresFields aggregate input.schema (outputColumns aggregate input.schema) := by
  have groups : ((input.schema.fields.take aggregate.groupCount).mapIdx fun index field =>
      Expr.column index field.type).length = aggregate.groupCount := by
    rw [List.length_mapIdx, List.length_take]
    exact Nat.min_eq_left wide
  have call {index : Nat} {call : AggregateCall} (found : aggregate.calls[index]? = some call) :
      (outputColumns aggregate input.schema)[aggregate.groupCount + index]? =
        some (.column (aggregate.callColumn index call) call.resultType) := by
    rw [outputColumns, List.getElem?_append_right (by rw [groups]; exact Nat.le_add_right _ _),
      groups, Nat.add_sub_cancel_left, List.getElem?_mapIdx, found]
    rfl
  constructor
  case length => rw [outputColumns, List.length_append, groups, List.length_mapIdx]
  case group =>
    intro index field bound found
    rw [Schema.field?] at found
    rw [outputColumns, List.getElem?_append_left (by rwa [groups]), List.getElem?_mapIdx,
      List.getElem?_take_of_lt bound, found]
    rfl
  case plain =>
    intro index plainCall found undistinct
    have kind : plainCall.kind = none := by rw [AggregateCall.kind, undistinct]; rfl
    rw [call found, Aggregate.callColumn, kind, Aggregate.sideStart_none, Nat.zero_add]
    simp only [Aggregate.kind_beq_none]
  case distinct =>
    intro index distinctCall before after found distinct split
    have kind : distinctCall.kind = some distinctCall.args := by
      rw [AggregateCall.kind, distinct]
      rfl
    rw [call found, Aggregate.callColumn, kind, Aggregate.sideStart_some split]
    simp only [Aggregate.kind_beq_some]

/-- The nodes that the elimination makes hold no distinct call. -/
theorem undistinct_of_occurs_place {node : PlanNode} (eliminable : node.Eliminable aggregate input)
    {key id : Nat} {inner : PlanNode} (occurs : Occurs inner ((templateOf node).place key id))
    (new : ¬Occurs inner input) : inner.operator.hasDistinctCall = false := by
  rcases Template.occurs_place _ key id occurs with made | ⟨leaf, member, below⟩
  · apply (plain_templateOf eliminable inner.operator _).undistinct
    rw [← Template.map_operator_created _ key id]
    exact List.mem_map_of_mem made
  · rw [(mem_leaves_templateOf eliminable).mp member] at below
    exact absurd below new

/-- What the elimination makes of an aggregate with a distinct call. No node that
it adds has a distinct call. When all calls are distinct and over one argument
list, the replacement is the side over this list. Otherwise it is a projection
that restores the fields of the aggregate from a chain of joins, one for each
argument list, in the order in which the lists first occur. -/
theorem elimination_shape {node : PlanNode} (checked : node.Checked)
    (operator : node.operator = .aggregate aggregate) (distinct : aggregate.hasDistinctCall = true)
    (nextId nextKey : Nat) :
    let lists := aggregate.argumentLists
    ∃ binding input replacement,
      Binding.bind? Rule.distinctElimination.pattern node = some binding ∧
      (Rule.distinctElimination.fire binding nextId nextKey).1 = .ok (some replacement) ∧
      node.inputs = [input] ∧
      (∀ inner, Occurs inner replacement → ¬Occurs inner input →
        ∀ grouping, inner.operator = .aggregate grouping →
          ∀ call ∈ grouping.calls, call.distinct = false) ∧
      ((∀ call ∈ aggregate.calls, call.distinct = true) ∧ lists.length = 1 →
        ∃ args, lists = [args] ∧ IsSideOver aggregate input args replacement) ∧
      (¬((∀ call ∈ aggregate.calls, call.distinct = true) ∧ lists.length = 1) →
        ∃ exprs joined,
          replacement.operator = .projection exprs node.schema.names ∧
          replacement.inputs = [joined] ∧
          IsJoinChain aggregate input lists joined ∧
          RestoresFields aggregate input.schema exprs) := by
  intro lists
  obtain ⟨input, inputs, fits, types⟩ := checked.aggregate_input operator
  have eliminable : node.Eliminable aggregate input := ⟨operator, inputs, distinct, fits, types⟩
  have bound : Binding.bind? Rule.distinctElimination.pattern node = some ⟨node, []⟩ := by
    rw [bind?_pattern, operator]
    exact if_pos distinct
  refine ⟨⟨node, []⟩, input, (templateOf node).place nextKey nextId, bound,
    congrArg Prod.fst (fire_eq eliminable nextId nextKey), inputs, ?_, ?_, ?_⟩
  · intro inner occurs new grouping isAggregate call member
    have undistinct := undistinct_of_occurs_place eliminable occurs new
    rw [isAggregate] at undistinct
    have all := List.any_eq_false.mp (show grouping.calls.any (·.distinct) = false from undistinct)
    simpa using all call member
  · intro sole
    obtain ⟨args, isSole⟩ := Option.isSome_iff_exists.mp
      (Aggregate.soleArguments?_isSome_iff.mpr sole)
    have single := (Aggregate.callsOf_eq_calls isSole).2
    refine ⟨args, single, ?_⟩
    rw [templateOf_eq eliminable, replacement, isSole]
    exact isSideOver_distinctSide fits (by simp [single]) nextKey nextId
  · intro several
    rw [← Aggregate.soleArguments?_isSome_iff, Bool.not_eq_true, Option.isSome_eq_false_iff,
      Option.isNone_iff_eq_none] at several
    rw [templateOf_eq eliminable, replacement, several]
    exact ⟨_, _, rfl, rfl, isJoinChain_sides fits nextKey nextId,
      restoresFields_outputColumns fits.groups⟩

/-- `elimination_shape` for an aggregate with a distinct and a plain call. -/
theorem elimination_shape_customers :
    Sample.itemCounts.hasDistinctCall = true ∧
    ∃ binding replacement exprs joined,
      Binding.bind? Rule.distinctElimination.pattern Sample.customers = some binding ∧
      (Rule.distinctElimination.fire binding 2 2).1 = .ok (some replacement) ∧
      replacement.operator = .projection exprs ["customer", "COUNT(DISTINCT $1)", "COUNT($1)"] ∧
      replacement.inputs = [joined] ∧
      IsJoinChain Sample.itemCounts Sample.orders [[1]] joined ∧
      exprs[1]? = some (.column 3 .int64) := by
  have distinct : Sample.itemCounts.hasDistinctCall = true := by decide
  obtain ⟨binding, input, replacement, bound, fired, inputs, _, _, several⟩ :=
    elimination_shape (Sample.customers_built _ .here) rfl distinct 2 2
  obtain rfl : input = Sample.orders := (List.singleton_inj.mp inputs).symm
  obtain ⟨exprs, joined, projected, below, chain, restores⟩ := several (by decide)
  refine ⟨distinct, binding, replacement, exprs, joined, bound, fired, projected, below, chain, ?_⟩
  exact restores.distinct 0 ⟨.count, true, [1], .int64⟩ [] [] rfl rfl (by decide)

end DistinctElimination

end QueryPlan
