import QueryPlan.Proofs.Elimination.Columns
import QueryPlan.Proofs.Elimination.Template

/-!
# Types of the replacement

Over an input that an aggregate fits, every template that the elimination of its
distinct calls makes is well typed, and its columns have the types of the
columns of the aggregate.
-/

namespace QueryPlan

namespace DistinctSelection

/-- The columns at `ordinals` with their names. -/
def columns (input : Schema) (ordinals : List Nat) : List (Expr × String) :=
  ordinals.filterMap fun ordinal =>
    (input.field? ordinal).map fun field => (Expr.column ordinal field.type, field.name)

/-- The selected columns without their names. -/
def exprs (input : Schema) (ordinals : List Nat) : List Expr := (columns input ordinals).map (·.1)

theorem projection_eq (input : Schema) (ordinals : List Nat) :
    projection input ordinals =
      .projection (exprs input ordinals) ((columns input ordinals).map (·.2)) := rfl

variable {input : Schema} {ordinals : List Nat}

/-- What is known of the columns of the input is known of the selected ones. -/
theorem map_exprs {β : Type} {image : Expr → β} {result : Nat → β}
    (bounded : ∀ ordinal ∈ ordinals, ordinal < input.width)
    (agree : ∀ ordinal field, input.field? ordinal = some field →
      image (.column ordinal field.type) = result ordinal) :
    (exprs input ordinals).map image = ordinals.map result := by
  induction ordinals with
  | nil => rfl
  | cons ordinal rest ih =>
      have bound : ordinal < input.fields.length := bounded ordinal List.mem_cons_self
      have found : input.field? ordinal = some input.fields[ordinal] :=
        List.getElem?_eq_getElem bound
      have tail := ih fun other member => bounded other (List.mem_cons_of_mem _ member)
      simp only [exprs, columns] at tail ⊢
      simp [found, agree ordinal _ found, tail]

/-- Types of the selected columns. -/
def types (input : Schema) (ordinals : List Nat) : List ScalarType :=
  (exprs input ordinals).map (·.type)

theorem map_some_types (bounded : ∀ ordinal ∈ ordinals, ordinal < input.width) :
    (types input ordinals).map some = ordinals.map (input.types[·]?) := by
  rw [types]
  rw [List.map_map]
  apply map_exprs bounded
  intro ordinal field found
  rw [← Schema.map_type_field?, found]
  rfl

theorem length_types (bounded : ∀ ordinal ∈ ordinals, ordinal < input.width) :
    (types input ordinals).length = ordinals.length := by
  simpa using congrArg List.length (map_some_types bounded)

theorem typed_exprs :
    ∀ expr ∈ exprs input ordinals, Expr.Typed input.types expr expr.type := by
  intro expr member
  simp only [exprs, columns, List.mem_map, List.mem_filterMap, Option.map_eq_some_iff] at member
  rcases member with ⟨_, ⟨ordinal, _, field, found, rfl⟩, rfl⟩
  refine .column ?_
  rw [← Schema.map_type_field?, found]
  rfl

/-- The projection of a selection has the types of the selected columns. -/
theorem typed_projected (input : PlanNode) (ordinals : List Nat) :
    (Template.node (projection input.schema ordinals) [.existing input]).Typed
      (types input.schema ordinals) := by
  refine .node (.cons (.existing input) .nil) ?_
  rw [projection_eq]
  refine .projection ?_ typed_exprs
  rw [List.length_map, exprs, List.length_map]

theorem typed_template {input : PlanNode}
    (bounded : ∀ ordinal ∈ ordinals, ordinal < input.schema.width) :
    (template input ordinals).Typed (types input.schema ordinals) := by
  have lengths := length_types bounded
  have grouped : (Operator.aggregate ⟨ordinals.length, []⟩).Typed [types input.schema ordinals]
      ((types input.schema ordinals).take ordinals.length ++ [].map AggregateCall.resultType) :=
    .aggregate ⟨Nat.le_of_eq lengths.symm, by simp⟩
  rw [← lengths, List.take_length, List.map_nil, List.append_nil, lengths] at grouped
  exact .node (.cons (typed_projected input ordinals) .nil) grouped

end DistinctSelection

namespace Aggregate

/-- Types of the columns of an aggregate. -/
def outputTypes (aggregate : Aggregate) (input : List ScalarType) : List ScalarType :=
  input.take aggregate.groupCount ++ aggregate.calls.map (·.resultType)

variable {aggregate : Aggregate} {width : Nat}

/-- All selected columns are columns of the input. -/
theorem Fits.ordinals_bounded (fits : aggregate.Fits width) {args : List Nat}
    (listed : args ∈ aggregate.argumentLists) :
    ∀ ordinal ∈ DistinctSelection.ordinals aggregate.groupCount args, ordinal < width := by
  intro ordinal selected
  rcases DistinctSelection.mem_ordinals.mp selected with group | argument
  · exact Nat.lt_of_lt_of_le group fits.groups
  · rcases mem_argumentLists.mp listed with ⟨call, member, _, rfl⟩
    exact (fits.calls call member).bounded ordinal argument

theorem Fits.callsOf (fits : aggregate.Fits width) (kind : CallKind) :
    Aggregate.Fits ⟨aggregate.groupCount, aggregate.callsOf kind⟩ width :=
  ⟨fits.groups, fun call member => fits.calls call (mem_callsOf.mp member).1⟩

end Aggregate

namespace DistinctElimination

variable {aggregate : Aggregate} {input : PlanNode}

/-- Types of the columns of some sides. -/
def sideTypes (aggregate : Aggregate) (input : PlanNode) (kinds : List CallKind) :
    List ScalarType :=
  aggregate.sides (input.types.take aggregate.groupCount) (·.resultType) kinds

theorem length_groupTypes (fits : aggregate.Fits input.schema.width) :
    (input.types.take aggregate.groupCount).length = aggregate.groupCount := by
  have wide : aggregate.groupCount ≤ input.types.length := by
    rw [PlanNode.types, Schema.length_types]
    exact fits.groups
  rw [List.length_take, Nat.min_eq_left wide]

theorem typed_plainSide (fits : aggregate.Fits input.schema.width) :
    (plainSide aggregate input).Typed (sideTypes aggregate input [none]) := by
  have grouped : (Operator.aggregate ⟨aggregate.groupCount, aggregate.callsOf none⟩).Typed
      [input.types] (sideTypes aggregate input [none]) := by
    rw [sideTypes, Aggregate.sides_cons, Aggregate.sides, List.flatMap_nil, List.append_nil]
    refine .aggregate ?_
    rw [PlanNode.types, Schema.length_types]
    exact fits.callsOf none
  exact .node (.cons (.existing input) .nil) grouped

/-- The group columns of a selection have the types of those of the input. -/
theorem take_selectionTypes (fits : aggregate.Fits input.schema.width) {args : List Nat}
    (listed : args ∈ aggregate.argumentLists) :
    (DistinctSelection.types input.schema
        (DistinctSelection.ordinals aggregate.groupCount args)).take aggregate.groupCount =
      input.types.take aggregate.groupCount := by
  have selected := DistinctSelection.map_some_types (fits.ordinals_bounded listed)
  have groups := congrArg (List.take aggregate.groupCount) selected
  rw [← List.map_take, ← List.map_take, DistinctSelection.take_ordinals] at groups
  refine (List.map_inj_right fun _ _ => Option.some.inj).mp ?_
  rw [groups]
  apply List.ext_getElem
  · rw [List.length_map, List.length_map, List.length_range, length_groupTypes fits]
  · intro index left right
    have bound : index < (input.types.take aggregate.groupCount).length := by simpa using right
    have inside : index < input.types.length := by
      rw [List.length_take] at bound
      omega
    simp only [List.getElem_map, List.getElem_range, List.getElem_take]
    rw [← PlanNode.types, List.getElem?_eq_getElem inside]

theorem typed_distinctSide (fits : aggregate.Fits input.schema.width) {args : List Nat}
    (listed : args ∈ aggregate.argumentLists) :
    (distinctSide aggregate input args).Typed (sideTypes aggregate input [some args]) := by
  have bounded := fits.ordinals_bounded listed
  have lengths := DistinctSelection.length_types bounded
  have callFits : ∀ call ∈ (aggregate.callsOf (some args)).map
      (·.overSelection (DistinctSelection.ordinals aggregate.groupCount args)),
      call.Fits (DistinctSelection.ordinals aggregate.groupCount args).length := by
    intro call member
    rcases List.mem_map.mp member with ⟨original, membership, rfl⟩
    rcases Aggregate.mem_callsOf.mp membership with ⟨present, kind⟩
    rcases Aggregate.kind_eq_some_iff.mp kind with ⟨distinct, rfl⟩
    have fitting := fits.calls original present
    constructor
    · intro empty
      have noArgs : original.args = [] := by
        simpa [AggregateCall.overSelection, AggregateCall.setArgs] using empty
      have plain := (fitting.argless noArgs).1
      rw [distinct] at plain
      exact Bool.noConfusion plain
    · intro position found
      rcases List.mem_map.mp found with ⟨arg, member, rfl⟩
      exact List.idxOf_lt_length_of_mem (DistinctSelection.mem_ordinals.mpr (.inr member))
  have grouped : (Operator.aggregate ⟨aggregate.groupCount, (aggregate.callsOf (some args)).map
        (·.overSelection (DistinctSelection.ordinals aggregate.groupCount args))⟩).Typed
      [DistinctSelection.types input.schema
        (DistinctSelection.ordinals aggregate.groupCount args)]
      (sideTypes aggregate input [some args]) := by
    have types : sideTypes aggregate input [some args] =
        (DistinctSelection.types input.schema
            (DistinctSelection.ordinals aggregate.groupCount args)).take aggregate.groupCount ++
          ((aggregate.callsOf (some args)).map (·.overSelection
            (DistinctSelection.ordinals aggregate.groupCount args))).map (·.resultType) := by
      rw [take_selectionTypes fits listed, sideTypes, Aggregate.sides_cons, Aggregate.sides,
        List.flatMap_nil, List.append_nil, List.map_map]
      rfl
    rw [types]
    refine .aggregate ?_
    rw [lengths]
    exact ⟨DistinctSelection.groupCount_le_length_ordinals, callFits⟩
  exact .node (.cons (DistinctSelection.typed_template bounded) .nil) grouped

/-- The condition of a join compares columns of one type: the group columns at
the start of both inputs. -/
theorem typed_joinCondition (fits : aggregate.Fits input.schema.width) {types : List ScalarType}
    {start : Nat}
    (leftGroups : ∀ index, index < aggregate.groupCount → types[index]? = input.types[index]?)
    (rightGroups : ∀ index, index < aggregate.groupCount →
      types[start + index]? = input.types[index]?) :
    Expr.Typed types
      (joinCondition (input.schema.fields.take aggregate.groupCount) start) .boolean := by
  apply Expr.typed_conjunction
  intro condition member
  rcases List.mem_mapIdx.mp member with ⟨index, bound, rfl⟩
  have wide := fits.groups
  have small : index < aggregate.groupCount := by
    rw [List.length_take] at bound
    omega
  have inside : index < input.schema.fields.length := Nat.lt_of_lt_of_le small wide
  have declared : input.types[index]? =
      some (input.schema.fields.take aggregate.groupCount)[index].type := by
    rw [PlanNode.types, ← Schema.map_type_field?, Schema.field?, List.getElem?_eq_getElem inside,
      List.getElem_take]
    rfl
  refine Expr.typed_equal (.column ?_) (.column ?_)
  · rw [leftGroups index small, declared]
  · rw [rightGroups index small, declared]

/-- Every side starts with the group columns. -/
theorem getElem?_sideTypes (fits : aggregate.Fits input.schema.width) {kinds : List CallKind}
    (nonempty : kinds ≠ []) {index : Nat} (bound : index < aggregate.groupCount) :
    (sideTypes aggregate input kinds)[index]? = input.types[index]? := by
  rw [sideTypes, Aggregate.getElem?_sides_group nonempty (by rwa [length_groupTypes fits]),
    List.getElem?_take_of_lt bound]

/-- Joining one more side puts its columns behind those of the sides so far. -/
theorem typed_joinSide (fits : aggregate.Fits input.schema.width) {before after : List CallKind}
    {args : List Nat} {left : Template}
    (split : aggregate.kinds = before ++ some args :: after)
    (leftTyped : left.Typed (sideTypes aggregate input before)) :
    (joinSide aggregate input left args).Typed
      (sideTypes aggregate input (before ++ [some args])) := by
  have listed : args ∈ aggregate.argumentLists := by
    have member : some args ∈ aggregate.kinds := by simp [split]
    simpa [Aggregate.kinds] using member
  have start : aggregate.sideStart (some args) = (sideTypes aggregate input before).length := by
    rw [aggregate.sideStart_eq split, sideTypes, Aggregate.length_sides (length_groupTypes fits)]
  have joined : sideTypes aggregate input (before ++ [some args]) =
      sideTypes aggregate input before ++ sideTypes aggregate input [some args] :=
    Aggregate.sides_append before [some args]
  rw [joined]
  refine .node (.cons leftTyped (.cons (typed_distinctSide fits listed) .nil)) (.join .inner ?_)
  apply typed_joinCondition fits
  · intro index bound
    rw [← joined]
    exact getElem?_sideTypes fits (by simp) bound
  · intro index bound
    rw [start, List.getElem?_append_right (Nat.le_add_right _ _), Nat.add_sub_cancel_left]
    exact getElem?_sideTypes fits (by simp) bound

/-- Induction over the joins, one further side at a time. -/
theorem foldl_joinSide (aggregate : Aggregate) (input : PlanNode)
    {motive : List CallKind → Template → Prop}
    (plain : motive [none] (plainSide aggregate input))
    (join : ∀ before args after left, before ≠ [] →
      aggregate.kinds = before ++ some args :: after → motive before left →
      motive (before ++ [some args]) (joinSide aggregate input left args)) :
    motive aggregate.kinds
      (aggregate.argumentLists.foldl (joinSide aggregate input) (plainSide aggregate input)) := by
  have further : ∀ (lists : List (List Nat)) before left, before ≠ [] →
      aggregate.kinds = before ++ lists.map some → motive before left →
      motive aggregate.kinds (lists.foldl (joinSide aggregate input) left) := by
    intro lists
    induction lists with
    | nil =>
        intro before left _ split holds
        rw [split, List.map_nil, List.append_nil]
        exact holds
    | cons args rest ih =>
        intro before left nonempty split holds
        rw [List.foldl_cons]
        apply ih (before ++ [some args])
        · simp
        · simpa using split
        · exact join before args (rest.map some) left nonempty (by simpa using split) holds
  exact further aggregate.argumentLists [none] _ (by simp) rfl plain

theorem typed_outputColumns (fits : aggregate.Fits input.schema.width) :
    ∀ expr ∈ outputColumns aggregate input.schema,
      Expr.Typed (sideTypes aggregate input aggregate.kinds) expr expr.type := by
  intro expr member
  rcases List.mem_append.mp member with group | call
  · rcases List.mem_mapIdx.mp group with ⟨index, bound, rfl⟩
    have wide := fits.groups
    have small : index < aggregate.groupCount := by
      rw [List.length_take] at bound
      omega
    have inside : index < input.schema.fields.length := Nat.lt_of_lt_of_le small wide
    refine .column ?_
    rw [getElem?_sideTypes fits Aggregate.kinds_ne_nil small, PlanNode.types,
      ← Schema.map_type_field?, Schema.field?, List.getElem?_eq_getElem inside, List.getElem_take]
    rfl
  · rcases List.mem_mapIdx.mp call with ⟨index, bound, rfl⟩
    refine .column ?_
    exact Aggregate.getElem?_callColumn (length_groupTypes fits) (List.getElem?_eq_getElem bound)

theorem types_outputColumns :
    (outputColumns aggregate input.schema).map (·.type) = aggregate.outputTypes input.types := by
  rw [outputColumns, Aggregate.outputTypes, List.map_append, PlanNode.types, Schema.types,
    ← List.map_take]
  congr 1
  · exact map_mapIdx_eq_map fun _ _ _ => rfl
  · exact map_mapIdx_eq_map fun _ _ _ => rfl

theorem typed_joined (fits : aggregate.Fits input.schema.width) {names : List String}
    (named : names.length = aggregate.groupCount + aggregate.calls.length) :
    (joined aggregate input names).Typed (aggregate.outputTypes input.types) := by
  have sides := foldl_joinSide aggregate input (motive := fun kinds template =>
    template.Typed (sideTypes aggregate input kinds)) (typed_plainSide fits)
    fun before args after left _ split => typed_joinSide fits split
  refine .node (.cons sides .nil) ?_
  rw [← types_outputColumns]
  refine .projection ?_ (typed_outputColumns fits)
  have wide := fits.groups
  have groups : min aggregate.groupCount input.schema.fields.length = aggregate.groupCount :=
    Nat.min_eq_left wide
  rw [named, outputColumns, List.length_append, List.length_mapIdx, List.length_mapIdx,
    List.length_take, groups]

/-- An aggregate node has one name for each group field and each call. -/
theorem length_names (fits : aggregate.Fits input.schema.width) {node : PlanNode}
    (types : node.types = aggregate.outputTypes input.types) :
    node.schema.names.length = aggregate.groupCount + aggregate.calls.length := by
  have lengths := congrArg List.length types
  rw [Aggregate.outputTypes, List.length_append, length_groupTypes fits, List.length_map,
    PlanNode.types, Schema.length_types] at lengths
  rw [Schema.names, List.length_map]
  exact lengths

/-- What the elimination puts in the place of an aggregate. -/
def replacement (aggregate : Aggregate) (input : PlanNode) (names : List String) : Template :=
  match aggregate.soleArguments? with
  | some args => distinctSide aggregate input args
  | none => joined aggregate input names

theorem typed_replacement (fits : aggregate.Fits input.schema.width) {names : List String}
    (named : names.length = aggregate.groupCount + aggregate.calls.length) :
    (replacement aggregate input names).Typed (aggregate.outputTypes input.types) := by
  rw [replacement]
  cases sole : aggregate.soleArguments? with
  | none => exact typed_joined fits named
  | some args =>
      rcases Aggregate.callsOf_eq_calls sole with ⟨all, single⟩
      have listed : args ∈ aggregate.argumentLists := by simp [single]
      have side := typed_distinctSide fits listed
      rwa [sideTypes, Aggregate.sides_cons, Aggregate.sides, List.flatMap_nil, List.append_nil,
        all] at side

end DistinctElimination

end QueryPlan
