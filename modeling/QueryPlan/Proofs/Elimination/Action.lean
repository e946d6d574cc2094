import Mathlib.Data.List.Induction
import QueryPlan.Proofs.Elimination.Gathering

/-!
# What the elimination builds

On an input that the aggregate fits, every step of the elimination goes through:
all columns can be selected, every argument and every group field is found in its
selection, every slot is empty before it is filled, and none is left empty in the
end. The nodes that are built are those of the templates. Each loop is followed by
what its steps have made of the members taken in so far (`sideAfter`, `slotsOf`).
-/

namespace QueryPlan

namespace DistinctElimination

variable {aggregate : Aggregate} {input : PlanNode} {firing : Firing}

namespace Slots

theorem perform_put {slots : Slots} {position : Nat} (bound : position < slots.length)
    (column : Expr) :
    Step.perform (slots.put position column) firing =
      (.ok (slots.set position (some column)), firing) := by
  rw [put, if_pos bound, Step.perform_pure]

theorem perform_fill {slots : Slots} {position : Nat} (empty : slots[position]? = some none)
    (column : Expr) :
    Step.perform (slots.fill position column) firing =
      (.ok (slots.set position (some column)), firing) := by
  have bound := (List.getElem?_eq_some_iff.mp empty).1
  rw [fill, Step.perform_bind_of_ok (Step.perform_index_of_some empty firing), Option.isSome_none,
    if_neg Bool.false_ne_true, perform_put bound]

end Slots

/-! ## The table of slots -/

/-- The slots with the group fields and some calls placed. -/
def slotTable (aggregate : Aggregate) (input : Schema) (placed : Nat → AggregateCall → Bool) :
    Slots :=
  ((input.fields.take aggregate.groupCount).mapIdx fun index field =>
      some (.column index field.type)) ++
    aggregate.calls.mapIdx fun index call =>
      if placed index call then
        some (.column (aggregate.callColumn index call) call.resultType)
      else none

/-- The slots with the group fields and the calls of some kinds placed. -/
def slotsOf (aggregate : Aggregate) (input : Schema) (kinds : List CallKind) : Slots :=
  slotTable aggregate input fun _ call => kinds.contains call.kind

/-- With all calls placed the slots hold the output columns. -/
theorem slotsOf_kinds (aggregate : Aggregate) (input : Schema) :
    slotsOf aggregate input aggregate.kinds = (outputColumns aggregate input).map some := by
  rw [slotsOf, slotTable, outputColumns, List.map_append]
  congr 1
  · apply List.ext_getElem?
    intro index
    rw [List.getElem?_map, List.getElem?_mapIdx, List.getElem?_mapIdx, Option.map_map]
    rfl
  · apply List.ext_getElem?
    intro index
    rw [List.getElem?_map, List.getElem?_mapIdx, List.getElem?_mapIdx]
    cases found : aggregate.calls[index]? with
    | none => rfl
    | some call =>
        have placed := List.contains_iff_mem.mpr
          (aggregate.kind_mem_kinds (List.mem_of_getElem? found))
        simp only [Option.map_some, placed, if_true]

/-- Without any call placed the slots hold the group fields. -/
theorem slotsOf_nil {fields : List Field} {schema : Schema}
    (wide : aggregate.groupCount ≤ schema.width)
    (types : fields.map (·.type) = aggregate.outputTypes schema.types) :
    slotsOf aggregate schema [] =
      ((fields.take aggregate.groupCount).mapIdx fun index field =>
        some (.column index field.type)) ++
          List.replicate (fields.length - aggregate.groupCount) none := by
  have lengths := congrArg List.length types
  have groups : (fields.take aggregate.groupCount).map (·.type) =
      (schema.fields.take aggregate.groupCount).map (·.type) := by
    rw [List.map_take, types, Aggregate.outputTypes, List.map_take, ← Schema.types]
    apply take_append_of_take
    rwa [Schema.length_types]
  rw [List.length_map, Aggregate.outputTypes, List.length_append, List.length_take,
    Schema.length_types, Nat.min_eq_left wide, List.length_map] at lengths
  rw [slotsOf, slotTable, mapIdx_type_congr (fun index type => some (Expr.column index type)) groups,
    lengths, Nat.add_sub_cancel_left]
  congr 1
  apply List.ext_getElem?
  intro index
  rw [List.getElem?_mapIdx, List.getElem?_replicate]
  by_cases bound : index < aggregate.calls.length
  · rw [List.getElem?_eq_getElem bound, if_pos bound]
    rfl
  · rw [List.getElem?_eq_none (Nat.le_of_not_lt bound), if_neg bound]
    rfl

section Table

variable {schema : Schema} {placed : Nat → AggregateCall → Bool}

theorem slotTable_congr {later : Nat → AggregateCall → Bool}
    (agree : ∀ index call, aggregate.calls[index]? = some call →
      placed index call = later index call) :
    slotTable aggregate schema placed = slotTable aggregate schema later := by
  rw [slotTable, slotTable]
  congr 1
  apply List.ext_getElem?
  intro index
  rw [List.getElem?_mapIdx, List.getElem?_mapIdx]
  cases found : aggregate.calls[index]? with
  | none => rfl
  | some call => simp only [Option.map_some, agree index call found]

theorem length_groupSlots (wide : aggregate.groupCount ≤ schema.width) :
    ((schema.fields.take aggregate.groupCount).mapIdx fun index field =>
      some (Expr.column index field.type)).length = aggregate.groupCount := by
  rw [List.length_mapIdx, List.length_take]
  exact Nat.min_eq_left wide

theorem getElem?_slotTable (wide : aggregate.groupCount ≤ schema.width) {index : Nat}
    {call : AggregateCall} (found : aggregate.calls[index]? = some call) :
    (slotTable aggregate schema placed)[aggregate.groupCount + index]? =
      some (if placed index call then
        some (.column (aggregate.callColumn index call) call.resultType) else none) := by
  have groups := length_groupSlots wide
  rw [slotTable, List.getElem?_append_right (by rw [groups]; exact Nat.le_add_right _ _), groups,
    Nat.add_sub_cancel_left, List.getElem?_mapIdx, found, Option.map_some]

/-- Placing one more call. -/
theorem set_slotTable (wide : aggregate.groupCount ≤ schema.width) {index : Nat}
    {call : AggregateCall} (found : aggregate.calls[index]? = some call) :
    (slotTable aggregate schema placed).set (aggregate.groupCount + index)
        (some (.column (aggregate.callColumn index call) call.resultType)) =
      slotTable aggregate schema fun other otherCall =>
        placed other otherCall || other == index := by
  have groups := length_groupSlots wide
  rw [slotTable, slotTable,
    List.set_append_right _ _ (by rw [groups]; exact Nat.le_add_right _ _), groups,
    Nat.add_sub_cancel_left]
  congr 1
  apply List.ext_getElem?
  intro other
  rw [List.getElem?_set, List.getElem?_mapIdx, List.getElem?_mapIdx, List.length_mapIdx]
  by_cases same : index = other
  · subst same
    rw [if_pos rfl, if_pos (List.getElem?_eq_some_iff.mp found).1, found]
    simp
  · have apart : (other == index) = false := beq_false_of_ne (Ne.symm same)
    simp only [if_neg same, apart, Bool.or_false]

end Table

/-! ## The calls of one side -/

/-- A side and the slots after some calls were looked at: those of its kind are
taken in, next to the calls of earlier kinds. -/
def sideAfter (aggregate : Aggregate) (input : Schema) (earlier : List CallKind) (kind : CallKind)
    (convert : AggregateCall → AggregateCall) (before : List AggregateCall) : Side where
  calls := (before.filter (·.kind == kind)).map convert
  slots := slotTable aggregate input fun index call =>
    earlier.contains call.kind || (decide (index < before.length) && call.kind == kind)

section Side

variable {schema : Schema} {earlier : List CallKind} {kind : CallKind}
  {convert : AggregateCall → AggregateCall} {before after : List AggregateCall}
  {call : AggregateCall}

theorem sideAfter_nil :
    sideAfter aggregate schema earlier kind convert [] =
      ⟨[], slotsOf aggregate schema earlier⟩ := by
  simp [sideAfter, slotsOf]

theorem sideAfter_calls :
    sideAfter aggregate schema earlier kind convert aggregate.calls =
      ⟨(aggregate.callsOf kind).map convert, slotsOf aggregate schema (earlier ++ [kind])⟩ := by
  rw [sideAfter, slotsOf, Aggregate.callsOf]
  congr 1
  apply slotTable_congr
  intro index call found
  have bound := (List.getElem?_eq_some_iff.mp found).1
  simp [bound, List.contains_eq_mem, Bool.beq_eq_decide_eq]

theorem getElem?_of_split (split : aggregate.calls = before ++ call :: after) :
    aggregate.calls[before.length]? = some call := by
  rw [split, List.getElem?_append_right (Nat.le_refl _), Nat.sub_self]
  rfl

/-- The next free column of a side is where its next call belongs. -/
theorem callColumn_of_split (split : aggregate.calls = before ++ call :: after)
    (isKind : call.kind = kind) :
    aggregate.callColumn before.length call = aggregate.sideStart kind + aggregate.groupCount +
      (sideAfter aggregate schema earlier kind convert before).calls.length := by
  rw [Aggregate.callColumn, isKind, split, List.take_left, sideAfter, List.length_map,
    List.countP_eq_length_filter]

theorem sideAfter_skip (other : call.kind ≠ kind)
    (split : aggregate.calls = before ++ call :: after) :
    sideAfter aggregate schema earlier kind convert (before ++ [call]) =
      sideAfter aggregate schema earlier kind convert before := by
  have apart : (call.kind == kind) = false := beq_false_of_ne other
  rw [sideAfter, sideAfter, List.filter_append, List.filter_cons_of_neg (by simp [apart]),
    List.filter_nil, List.append_nil]
  congr 1
  apply slotTable_congr
  intro index otherCall found
  by_cases same : index = before.length
  · rw [same, getElem?_of_split split] at found
    rw [← Option.some.inj found, apart, Bool.and_false, Bool.and_false]
  · have bounds : index < before.length + 1 ↔ index < before.length := by omega
    simp only [List.length_append, List.length_singleton, bounds]

theorem sideAfter_take (wide : aggregate.groupCount ≤ schema.width) (isKind : call.kind = kind)
    (split : aggregate.calls = before ++ call :: after) :
    sideAfter aggregate schema earlier kind convert (before ++ [call]) =
      let side := sideAfter aggregate schema earlier kind convert before
      ⟨side.calls ++ [convert call], side.slots.set (aggregate.groupCount + before.length)
        (some (.column (aggregate.callColumn before.length call) call.resultType))⟩ := by
  have taken : [call].filter (·.kind == kind) = [call] := by simp [isKind]
  simp only [sideAfter, List.filter_append, taken, List.map_append, List.map_singleton]
  congr 1
  rw [set_slotTable wide (getElem?_of_split split)]
  apply slotTable_congr
  intro index other found
  by_cases last : index = before.length
  · rw [last, getElem?_of_split split] at found
    simp [← Option.some.inj found, last, isKind]
  · have bounds : index < before.length + 1 ↔ index < before.length := by omega
    simp [bounds, last]

theorem getElem?_sideAfter (wide : aggregate.groupCount ≤ schema.width)
    (split : aggregate.calls = before ++ call :: after) :
    (sideAfter aggregate schema earlier kind convert before).slots[
        aggregate.groupCount + before.length]? =
      some (if earlier.contains call.kind then
        some (.column (aggregate.callColumn before.length call) call.resultType) else none) := by
  rw [sideAfter, getElem?_slotTable wide (getElem?_of_split split)]
  simp

end Side

/-! ## The steps -/

/-- An argument that was selected has a place. -/
theorem perform_placeOf {ordinals : List Nat} {arg : Nat} (selected : arg ∈ ordinals)
    (call : AggregateCall) :
    Step.perform (placeOf ordinals call arg) firing = (.ok (ordinals.idxOf arg), firing) := by
  rw [placeOf, idxOf?_of_mem selected, Step.perform_pure]

/-- Over a selection that has all of its arguments a call is made plain. -/
theorem perform_makePlain {ordinals : List Nat} {call : AggregateCall}
    (selected : ∀ arg ∈ call.args, arg ∈ ordinals) :
    Step.perform (makePlain ordinals call) firing = (.ok (call.overSelection ordinals), firing) := by
  rw [makePlain, AggregateCall.overSelection]
  apply Step.perform_bind_of_ok
  apply Step.perform_mapM
  exact fun arg member => perform_placeOf (selected arg member) call

/-- Otherwise the first argument that was not selected is reported with its call. -/
theorem perform_makePlain_missing {ordinals : List Nat} {call : AggregateCall} {arg : Nat}
    {before after : List Nat} (split : call.args = before ++ arg :: after)
    (selected : ∀ other ∈ before, other ∈ ordinals) (missing : arg ∉ ordinals) :
    Step.perform (makePlain ordinals call) firing =
      (.error (.error (.invalidRule (.argumentNotSelected arg call))), firing) := by
  have places : Step.perform (before.mapM (placeOf ordinals call)) firing =
      (.ok (before.map ordinals.idxOf), firing) :=
    Step.perform_mapM fun other member => perform_placeOf (selected other member) call
  have fails : Step.perform (placeOf ordinals call arg) firing =
      (.error (.error (.invalidRule (.argumentNotSelected arg call))), firing) := by
    rw [placeOf, List.idxOf?_eq_none_iff.mpr missing, Step.perform_fail]
  rw [makePlain, split, List.mapM_append, bind_assoc, Step.perform_bind_of_ok places,
    List.mapM_cons]
  simp only [Step.perform_bind, fails]

/-- The group fields go into the first slots. -/
theorem perform_ofGroups {fields : List Field} {groupCount : Nat}
    (wide : groupCount ≤ fields.length) :
    Step.perform (Slots.ofGroups fields groupCount) firing =
      (.ok (((fields.take groupCount).mapIdx fun index field =>
          some (.column index field.type)) ++
        List.replicate (fields.length - groupCount) none), firing) := by
  let filled (before : List Field) : Slots :=
    (before.mapIdx fun index field => some (.column index field.type)) ++
      List.replicate (fields.length - before.length) none
  have groups : (fields.take groupCount).length = groupCount := by
    rw [List.length_take, Nat.min_eq_left wide]
  have looped : Step.perform ((fields.take groupCount).zipIdx.foldlM Slots.putGroup (filled []))
      firing = (.ok (filled (fields.take groupCount)), firing) := by
    apply Step.perform_foldlM_zipIdx
    intro before field after split
    have room : before.length < fields.length := by
      have lengths := congrArg List.length split
      rw [List.length_append, List.length_cons] at lengths
      omega
    have left : fields.length - before.length = fields.length - (before.length + 1) + 1 := by omega
    have bound : before.length < (filled before).length := by
      simp only [filled, List.length_append, List.length_mapIdx, List.length_replicate]
      omega
    rw [Slots.putGroup, Slots.perform_put bound]
    simp only [filled, List.mapIdx_concat, List.length_append, List.length_singleton]
    rw [List.set_append_right _ _ (by simp), List.length_mapIdx, Nat.sub_self, left,
      List.replicate_succ, List.set_cons_zero, List.append_assoc, List.singleton_append]
  rw [Slots.ofGroups, if_neg (Nat.not_lt_of_le wide)]
  simp only [filled, groups] at looped
  exact looped

theorem perform_addPlain (wide : aggregate.groupCount ≤ input.schema.width)
    {before after : List AggregateCall} {call : AggregateCall}
    (split : aggregate.calls = before ++ call :: after) :
    Step.perform (Side.addPlain aggregate.groupCount
        (sideAfter aggregate input.schema [] none id before) (call, before.length)) firing =
      (.ok (sideAfter aggregate input.schema [] none id (before ++ [call])), firing) := by
  have slot := @getElem?_sideAfter _ _ [] none id _ _ _ wide split
  rw [Side.addPlain]
  cases distinct : call.distinct with
  | true =>
      have other : call.kind ≠ none := by simp [AggregateCall.kind, distinct]
      rw [sideAfter_skip other split]
      rfl
  | false =>
      have plain : call.kind = none := by simp [AggregateCall.kind, distinct]
      have bound := (List.getElem?_eq_some_iff.mp slot).1
      have column := @callColumn_of_split _ input.schema [] _ id _ _ _ split plain
      rw [Aggregate.sideStart_none, Nat.zero_add] at column
      rw [sideAfter_take wide plain split, column]
      exact Step.perform_bind_of_ok (Slots.perform_put bound _)

theorem perform_addDistinct (wide : aggregate.groupCount ≤ input.schema.width)
    {before after : List AggregateCall} {call : AggregateCall} {earlier : List CallKind}
    {args ordinals : List Nat}
    (selected : ∀ arg ∈ args, arg ∈ ordinals)
    (new : some args ∉ earlier) (split : aggregate.calls = before ++ call :: after) :
    let side := sideAfter aggregate input.schema earlier (some args) (·.overSelection ordinals)
    Step.perform (Side.addDistinct aggregate.groupCount (aggregate.sideStart (some args)) args
        ordinals (side before) (call, before.length)) firing =
      (.ok (side (before ++ [call])), firing) := by
  intro side
  have slot := @getElem?_sideAfter _ _ earlier (some args) (·.overSelection ordinals) _ _ _ wide split
  rw [Side.addDistinct]
  by_cases isKind : call.kind = some args
  · obtain ⟨distinct, rfl⟩ := Aggregate.kind_eq_some_iff.mp isKind
    have empty : (earlier.contains call.kind) = false := by simpa [isKind] using new
    rw [empty] at slot
    have column := @callColumn_of_split _ input.schema earlier _ (·.overSelection ordinals) _ _ _
      split isKind
    simp only [side]
    rw [sideAfter_take wide isKind split, column]
    simp only [distinct, bne_self_eq_false, Bool.not_true, Bool.or_self, Bool.false_eq_true,
      if_false]
    rw [Step.perform_bind_of_ok (perform_makePlain selected)]
    exact Step.perform_bind_of_ok (Slots.perform_fill slot _)
  · have skipped : (!call.distinct || call.args != args) = true := by
      rw [Aggregate.kind_eq_some_iff] at isKind
      simpa [Decidable.imp_iff_not_or] using isKind
    simp only [side]
    rw [sideAfter_skip isKind split, if_pos skipped]
    rfl

/-- The first fields of both inputs, found at the same places, are compared. -/
theorem perform_matchGroups {left right : Schema} {groupCount : Nat} {ordinals : List Nat}
    {groups : List Field} (length : groups.length = groupCount)
    (places : ∀ index, index < groupCount → ordinals.idxOf? index = some index)
    (leftGroups : ∀ index, index < groupCount → left.types[index]? = groups[index]?.map (·.type))
    (rightGroups : ∀ index, index < groupCount →
      right.types[index]? = groups[index]?.map (·.type)) :
    Step.perform (matchGroups left right groupCount ordinals) firing =
      (.ok (joinCondition groups left.width), firing) := by
  subst length
  -- The equality of a group field by its position alone.
  let image (index : Nat) : Expr := (groups[index]?).elim (.literal (.boolean true)) fun field =>
    (Expr.column index field.type).equal (.column (left.width + index) field.type)
  have matched : Step.perform ((List.range groups.length).mapM (matchGroup left right ordinals))
      firing = (.ok ((List.range groups.length).map image), firing) := by
    apply Step.perform_mapM
    intro index member
    have bound := List.mem_range.mp member
    have found : groups[index]? = some groups[index] := List.getElem?_eq_getElem bound
    have leftFound := leftGroups index bound
    have rightFound := rightGroups index bound
    rw [found, ← Schema.map_type_field?] at leftFound rightFound
    obtain ⟨leftField, isLeft, leftType⟩ := Option.map_eq_some_iff.mp leftFound
    obtain ⟨rightField, isRight, rightType⟩ := Option.map_eq_some_iff.mp rightFound
    rw [matchGroup, places index bound]
    simp only
    rw [Step.perform_bind_of_ok (Step.perform_index_of_some isLeft firing),
      Step.perform_bind_of_ok (Step.perform_index_of_some isRight firing), leftType, rightType]
    simp only [image, found, Option.elim_some, Step.perform_pure]
  have images : (List.range groups.length).map image = groups.mapIdx fun index field =>
      (Expr.column index field.type).equal (.column (left.width + index) field.type) := by
    apply List.ext_getElem
    · rw [List.length_map, List.length_range, List.length_mapIdx]
    · intro index _ bound
      rw [List.length_mapIdx] at bound
      simp [image, List.getElem?_eq_getElem bound]
  rw [matchGroups, Step.perform_bind_of_ok matched, images]
  rfl

/-- The plain calls are all placed. -/
theorem perform_plainCalls (wide : aggregate.groupCount ≤ input.schema.width) :
    Step.perform (aggregate.calls.zipIdx.foldlM (Side.addPlain aggregate.groupCount)
        ⟨[], slotsOf aggregate input.schema []⟩) firing =
      (.ok ⟨aggregate.callsOf none, slotsOf aggregate input.schema [none]⟩, firing) := by
  have looped := @Step.perform_foldlM_zipIdx _ _ _ (Side.addPlain aggregate.groupCount)
    aggregate.calls (sideAfter aggregate input.schema [] none id) firing
    fun _ _ _ split => perform_addPlain wide split
  rwa [sideAfter_nil, sideAfter_calls, List.map_id, List.nil_append] at looped

/-- The distinct calls over an argument list are all placed. -/
theorem perform_distinctCalls (wide : aggregate.groupCount ≤ input.schema.width)
    {earlier : List CallKind} {args : List Nat} (new : some args ∉ earlier) :
    let ordinals := DistinctSelection.ordinals aggregate.groupCount args
    Step.perform (aggregate.calls.zipIdx.foldlM
        (Side.addDistinct aggregate.groupCount (aggregate.sideStart (some args)) args ordinals)
        ⟨[], slotsOf aggregate input.schema earlier⟩) firing =
      (.ok ⟨(aggregate.callsOf (some args)).map (·.overSelection ordinals),
        slotsOf aggregate input.schema (earlier ++ [some args])⟩, firing) := by
  intro ordinals
  rw [← sideAfter_nil, ← sideAfter_calls]
  apply Step.perform_foldlM_zipIdx
  intro before call after split
  refine perform_addDistinct wide ?_ new split
  intro arg member
  exact DistinctSelection.mem_ordinals.mpr (.inr member)

/-- The group fields of two sides are compared. -/
theorem perform_matchGroups_sides (fits : aggregate.Fits input.schema.width)
    {left right : PlanNode} {leftKinds rightKinds : List CallKind} {args : List Nat}
    (leftSome : leftKinds ≠ []) (rightSome : rightKinds ≠ [])
    (leftTypes : left.types = sideTypes aggregate input leftKinds)
    (rightTypes : right.types = sideTypes aggregate input rightKinds) :
    Step.perform (matchGroups left.schema right.schema aggregate.groupCount
        (DistinctSelection.ordinals aggregate.groupCount args)) firing =
      (.ok (joinCondition (input.schema.fields.take aggregate.groupCount) left.schema.width),
        firing) := by
  have group {index : Nat} (bound : index < aggregate.groupCount) :
      (input.schema.fields.take aggregate.groupCount)[index]?.map (·.type) =
        input.types[index]? := by
    rw [List.getElem?_take_of_lt bound]
    exact Schema.map_type_field? _ _
  apply perform_matchGroups
  · rw [List.length_take]
    exact Nat.min_eq_left fits.groups
  · intro index bound
    exact DistinctSelection.idxOf?_ordinals_group bound
  · intro index bound
    rw [group bound, ← PlanNode.types, leftTypes, getElem?_sideTypes fits leftSome bound]
  · intro index bound
    rw [group bound, ← PlanNode.types, rightTypes, getElem?_sideTypes fits rightSome bound]

/-- All columns of a selection for the distinct calls are there. -/
theorem complete_asked (fits : aggregate.Fits input.schema.width) {args : List Nat}
    (listed : args ∈ aggregate.argumentLists) :
    ∀ ordinal ∈ DistinctSelection.asked aggregate.groupCount args, ordinal < input.schema.width := by
  intro ordinal member
  apply fits.ordinals_bounded listed
  rwa [DistinctSelection.ordinals_eq, List.mem_eraseDups]

/-- One further side is joined, with its calls placed. -/
theorem perform_joinDistinct (fits : aggregate.Fits input.schema.width)
    {before after : List CallKind} {args : List Nat} {left : Template}
    (split : aggregate.kinds = before ++ some args :: after) (nonempty : before ≠ [])
    (leftTyped : left.Typed (sideTypes aggregate input before)) (firing : Firing) :
    Step.perform (joinDistinct aggregate input (left.place firing.nextKey firing.nextId,
        slotsOf aggregate input.schema before) args) (firing.advance left.size) =
      (.ok ((joinSide aggregate input left args).place firing.nextKey firing.nextId,
          slotsOf aggregate input.schema (before ++ [some args])),
        firing.advance (joinSide aggregate input left args).size) := by
  have listed : args ∈ aggregate.argumentLists := by
    have member : some args ∈ aggregate.kinds := by simp [split]
    simpa [Aggregate.kinds] using member
  have new : some args ∉ before := by
    have nodup := aggregate.kinds_nodup
    rw [split, List.nodup_append] at nodup
    intro member
    exact nodup.2.2 _ member _ List.mem_cons_self rfl
  have sideTyped := typed_distinctSide fits listed
  have leftTypes := Template.types_place leftTyped firing.nextKey firing.nextId
  have width : (left.place firing.nextKey firing.nextId).schema.width =
      aggregate.sideStart (some args) := by
    rw [← Schema.length_types, ← PlanNode.types, leftTypes, sideTypes,
      Aggregate.length_sides (length_groupTypes fits), aggregate.sideStart_eq split]
  have side : Step.perform (Firing.create (.aggregate ⟨aggregate.groupCount, _⟩) [_])
      ((firing.advance left.size).advance 2) =
        (.ok ((distinctSide aggregate input args).place (firing.nextKey + left.size)
          (firing.nextId + left.size)), (firing.advance left.size).advance 3) :=
    Firing.perform_create_placed sideTyped (firing.advance left.size)
  have condition := @perform_matchGroups_sides aggregate input
    ((firing.advance left.size).advance 3) fits _ _ _ _ args nonempty (by simp) leftTypes
    (Template.types_place sideTyped (firing.nextKey + left.size) (firing.nextId + left.size))
  rw [width] at condition
  have join : Step.perform (Firing.create (.join .inner _) [_, _])
      ((firing.advance left.size).advance 3) = (.ok _, _) :=
    Firing.perform_create_placed (typed_joinSide fits split leftTyped) firing
  rw [joinDistinct, Step.perform_bind_of_ok
    (Firing.perform_selectDistinct_complete (complete_asked fits listed) _)]
  simp only [width]
  rw [Step.perform_bind_of_ok (perform_distinctCalls fits.groups new)]
  simp only
  rw [Step.perform_bind_of_ok side, Step.perform_bind_of_ok condition,
    Step.perform_bind_of_ok join]
  rfl

/-- All sides are joined, with all calls placed. -/
theorem perform_sides (fits : aggregate.Fits input.schema.width) (firing : Firing) :
    let sides := aggregate.argumentLists.foldl (joinSide aggregate input) (plainSide aggregate input)
    Step.perform (aggregate.argumentLists.foldlM (joinDistinct aggregate input)
        ((plainSide aggregate input).place firing.nextKey firing.nextId,
          slotsOf aggregate input.schema [none])) (firing.advance 1) =
      (.ok (sides.place firing.nextKey firing.nextId,
        slotsOf aggregate input.schema aggregate.kinds), firing.advance sides.size) := by
  have joined := foldl_joinSide aggregate input (motive := fun kinds template =>
    template.Typed (sideTypes aggregate input kinds) ∧
      ∃ lists : List (List Nat), kinds = none :: lists.map some ∧
        Step.perform (lists.foldlM (joinDistinct aggregate input)
            ((plainSide aggregate input).place firing.nextKey firing.nextId,
              slotsOf aggregate input.schema [none])) (firing.advance 1) =
          (.ok (template.place firing.nextKey firing.nextId, slotsOf aggregate input.schema kinds),
            firing.advance template.size))
    ⟨typed_plainSide fits, [], rfl, rfl⟩ (by
      rintro before args after left nonempty split ⟨typed, lists, rfl, performed⟩
      refine ⟨typed_joinSide fits split typed, lists ++ [args], by simp, ?_⟩
      rw [List.foldlM_append, Step.perform_bind_of_ok performed, List.foldlM_cons,
        Step.perform_bind_of_ok (perform_joinDistinct fits split nonempty typed firing)]
      rfl)
  obtain ⟨_, lists, all, performed⟩ := joined
  obtain rfl := Aggregate.argumentLists_of_kinds all
  exact performed

/-- The elimination by joins builds its template. -/
theorem perform_joinSides (fits : aggregate.Fits input.schema.width) {node : PlanNode}
    (types : node.types = aggregate.outputTypes input.types) (firing : Firing) :
    Step.perform (joinSides node aggregate input) firing =
      (.ok ((joined aggregate input node.schema.names).place firing.nextKey firing.nextId),
        firing.advance (joined aggregate input node.schema.names).size) := by
  have wide := fits.groups
  have named := length_names fits types
  have enough : aggregate.groupCount ≤ node.schema.fields.length := by
    rw [Schema.names, List.length_map] at named
    rw [named]
    exact Nat.le_add_right _ _
  have groups := @perform_ofGroups firing _ _ enough
  rw [← slotsOf_nil wide types] at groups
  have base : Step.perform (Firing.create (.aggregate ⟨aggregate.groupCount, _⟩) [input]) firing =
      (.ok ((plainSide aggregate input).place firing.nextKey firing.nextId), firing.advance 1) :=
    Firing.perform_create_placed (typed_plainSide fits) firing
  have projected : Step.perform (Firing.create (.projection _ _) [_]) (firing.advance _) = (.ok _, _) :=
    Firing.perform_create_placed (typed_joined fits named) firing
  have filled : (slotsOf aggregate input.schema aggregate.kinds).mapM id =
      some (outputColumns aggregate input.schema) := by
    rw [slotsOf_kinds, List.mapM_map]
    exact (@List.mapM_pure Option _ _ _ _ _ id).trans (congrArg some (List.map_id _))
  rw [joinSides, Step.perform_bind_of_ok groups, Step.perform_bind_of_ok (perform_plainCalls wide)]
  simp only
  rw [Step.perform_bind_of_ok base, Step.perform_bind_of_ok (perform_sides fits firing)]
  simp only [filled]
  exact projected

/-- The elimination of a single list builds its template. -/
theorem perform_overSelection (fits : aggregate.Fits input.schema.width) {args : List Nat}
    (sole : aggregate.soleArguments? = some args) (firing : Firing) :
    Step.perform (overSelection aggregate input args) firing =
      (.ok ((distinctSide aggregate input args).place firing.nextKey firing.nextId),
        firing.advance 3) := by
  obtain ⟨all, single⟩ := Aggregate.callsOf_eq_calls sole
  have listed : args ∈ aggregate.argumentLists := by simp [single]
  have calls : Step.perform (aggregate.calls.mapM fun call =>
      if call.distinct && call.args == args then
        makePlain (DistinctSelection.ordinals aggregate.groupCount args) call
      else return call) (firing.advance 2) =
      (.ok (aggregate.calls.map
        (·.overSelection (DistinctSelection.ordinals aggregate.groupCount args))),
        firing.advance 2) := by
    apply Step.perform_mapM
    intro call member
    rw [← all, Aggregate.mem_callsOf, Aggregate.kind_eq_some_iff] at member
    obtain ⟨_, distinct, rfl⟩ := member
    rw [distinct, beq_self_eq_true, Bool.and_self, if_pos rfl]
    apply perform_makePlain
    intro arg isArg
    exact DistinctSelection.mem_ordinals.mpr (.inr isArg)
  have grouped : Step.perform (Firing.create (.aggregate ⟨aggregate.groupCount, _⟩) [_])
      (firing.advance 2) = (.ok _, firing.advance 3) :=
    Firing.perform_create_placed (typed_distinctSide fits listed) firing
  rw [all] at grouped
  rw [overSelection, Step.perform_bind_of_ok
    (Firing.perform_selectDistinct_complete (complete_asked fits listed) firing)]
  simp only
  rw [Step.perform_bind_of_ok calls]
  rw [distinctSide, all]
  exact grouped

end DistinctElimination

end QueryPlan
