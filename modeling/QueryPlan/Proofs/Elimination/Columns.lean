import QueryPlan.Proofs.Rows.FirstOccurrence
import QueryPlan.Proofs.Elimination.Sides

/-!
# Columns of the joined sides

The sides of the kinds of calls stand next to each other in the joined row, each
with the group columns first and then one column per call of its kind. The
position that `callColumn` computes is where the call is found, whether the row
holds values or types (`Aggregate.getElem?_callColumn`). The columns of a
selection start with the group columns and hold every argument.
-/

namespace QueryPlan

/-- A member that passes a test comes, among those that pass it, after as many
as pass it before the member. -/
theorem getElem?_filter_countP {α : Type} {test : α → Bool} {members : List α} {index : Nat}
    {member : α} (found : members[index]? = some member) (passes : test member = true) :
    (members.filter test)[(members.take index).countP test]? = some member := by
  induction members generalizing index with
  | nil => simp at found
  | cons first rest ih =>
      cases index with
      | zero =>
          obtain rfl : first = member := by simpa using found
          simp [passes]
      | succ index =>
          rw [List.getElem?_cons_succ] at found
          have below := ih found
          cases kept : test first with
          | true => simpa [kept] using below
          | false => simpa [kept] using below

/-- Placing members and reading the places again gives what is known of each
member at its place. -/
theorem map_mapIdx_eq_map {α β γ : Type} {members : List α} {place : Nat → α → β} {image : β → γ}
    {result : α → γ}
    (agree : ∀ index member, members[index]? = some member →
      image (place index member) = result member) :
    (members.mapIdx place).map image = members.map result := by
  apply List.ext_getElem?
  intro index
  rw [List.getElem?_map, List.getElem?_mapIdx, List.getElem?_map]
  cases found : members[index]? with
  | none => rfl
  | some member => simp [agree index member found]

/-- What is made of each field by its position and type is the same for fields of
the same types. -/
theorem mapIdx_type_congr {α : Type} {lefts rights : List Field} (make : Nat → ScalarType → α)
    (types : lefts.map (·.type) = rights.map (·.type)) :
    lefts.mapIdx (fun index field => make index field.type) =
      rights.mapIdx fun index field => make index field.type := by
  have byType (fields : List Field) : fields.mapIdx (fun index field => make index field.type) =
      (fields.map (·.type)).mapIdx make := by
    apply List.ext_getElem?
    intro index
    rw [List.getElem?_mapIdx, List.getElem?_mapIdx, List.getElem?_map, Option.map_map]
    rfl
  rw [byType, byType, types]

/-- The first members of a list are still the first ones with others behind them. -/
theorem take_append_of_take {α : Type} {members others : List α} {count : Nat}
    (wide : count ≤ members.length) :
    (members.take count ++ others).take count = members.take count := by
  apply List.take_left'
  rw [List.length_take, Nat.min_eq_left wide]

namespace Aggregate

variable {aggregate : Aggregate}

theorem mem_callsOf {call : AggregateCall} {kind : CallKind} :
    call ∈ aggregate.callsOf kind ↔ call ∈ aggregate.calls ∧ call.kind = kind := by
  simp [callsOf]

theorem mem_argumentLists {args : List Nat} :
    args ∈ aggregate.argumentLists ↔
      ∃ call ∈ aggregate.calls, call.distinct = true ∧ call.args = args := by
  simp [argumentLists, List.mem_eraseDups, and_assoc]

theorem kind_eq_some_iff {call : AggregateCall} {args : List Nat} :
    call.kind = some args ↔ call.distinct = true ∧ call.args = args := by
  rw [AggregateCall.kind]
  cases call.distinct <;> simp

theorem argumentLists_eq_nil_iff :
    aggregate.argumentLists = [] ↔ aggregate.hasDistinctCall = false := by
  rw [List.eq_nil_iff_forall_not_mem, hasDistinctCall, List.any_eq_false]
  constructor
  · intro none call member distinct
    exact none call.args (mem_argumentLists.mpr ⟨call, member, distinct, rfl⟩)
  · intro plain args membership
    rcases mem_argumentLists.mp membership with ⟨call, member, distinct, _⟩
    exact plain call member distinct

/-- The kind of every call has a side. -/
theorem kind_mem_kinds {call : AggregateCall} (member : call ∈ aggregate.calls) :
    call.kind ∈ aggregate.kinds := by
  cases kind : call.kind with
  | none => exact List.mem_cons_self
  | some args =>
      apply List.mem_cons_of_mem
      rcases kind_eq_some_iff.mp kind with ⟨distinct, equal⟩
      exact List.mem_map_of_mem (mem_argumentLists.mpr ⟨call, member, distinct, equal⟩)

theorem kinds_ne_nil : aggregate.kinds ≠ [] := List.cons_ne_nil _ _

theorem argumentLists_nodup : aggregate.argumentLists.Nodup := by
  have apart := FirstOccurrence.eraseDups_pairwise
    ((aggregate.calls.filter (·.distinct)).map (·.args))
  exact apart.imp fun differs => by simpa using differs

theorem kinds_nodup : aggregate.kinds.Nodup := by
  refine List.nodup_cons.mpr ⟨by simp, ?_⟩
  exact List.Pairwise.map some (fun _ _ differs => by simpa using differs) argumentLists_nodup

/-- The kinds tell the argument lists. -/
theorem argumentLists_of_kinds {lists : List (List Nat)}
    (all : aggregate.kinds = none :: lists.map some) : aggregate.argumentLists = lists := by
  have images : aggregate.argumentLists.map some = lists.map some := List.tail_eq_of_cons_eq all
  exact (List.map_inj_right fun _ _ => Option.some.inj).mp images

/-- The columns of some sides next to each other: for each kind the group
columns and then one column per call. -/
def sides {β : Type} (aggregate : Aggregate) (groups : List β) (result : AggregateCall → β)
    (kinds : List CallKind) : List β :=
  kinds.flatMap fun kind => groups ++ (aggregate.callsOf kind).map result

section Sides

variable {β : Type} {groups : List β} {result : AggregateCall → β}

theorem sides_cons (kind : CallKind) (rest : List CallKind) :
    aggregate.sides groups result (kind :: rest) =
      groups ++ (aggregate.callsOf kind).map result ++ aggregate.sides groups result rest :=
  List.flatMap_cons

theorem length_sides (wide : groups.length = aggregate.groupCount) (kinds : List CallKind) :
    (aggregate.sides groups result kinds).length = aggregate.sidesWidth kinds := by
  induction kinds with
  | nil => rfl
  | cons kind rest ih =>
      rw [sides_cons, List.length_append, ih, sidesWidth]
      simp [sideWidth, wide]

theorem sides_append (before after : List CallKind) :
    aggregate.sides groups result (before ++ after) =
      aggregate.sides groups result before ++ aggregate.sides groups result after :=
  List.flatMap_append

/-- A side starts where the sides of the kinds before it end. -/
theorem sideStart_eq {before after : List CallKind} {kind : CallKind}
    (split : aggregate.kinds = before ++ kind :: after) :
    aggregate.sideStart kind = aggregate.sidesWidth before := by
  have nodup := aggregate.kinds_nodup
  rw [split] at nodup
  have apart := (List.nodup_append.mp nodup).2.2
  rw [sideStart]
  rw [split, List.takeWhile_append_of_pos, List.takeWhile_cons_of_neg]
  · simp
  · simp
  · intro other member
    have differs := apart other member kind List.mem_cons_self
    simpa using differs

/-- The side of the plain calls comes first. -/
theorem sideStart_none : aggregate.sideStart none = 0 :=
  aggregate.sideStart_eq (show aggregate.kinds = [] ++ none :: _ from rfl)

/-- Where the joined row holds the result of a call. -/
theorem getElem?_callColumn (wide : groups.length = aggregate.groupCount) {index : Nat}
    {call : AggregateCall} (found : aggregate.calls[index]? = some call) :
    (aggregate.sides groups result aggregate.kinds)[aggregate.callColumn index call]? =
      some (result call) := by
  have member := aggregate.kind_mem_kinds (List.mem_of_getElem? found)
  rcases List.append_of_mem member with ⟨before, after, split⟩
  have start := aggregate.sideStart_eq split
  rw [← @length_sides _ _ groups result wide] at start
  have position : (aggregate.callsOf call.kind)[
      (aggregate.calls.take index).countP (·.kind == call.kind)]? = some call :=
    getElem?_filter_countP found (by simp)
  have bound := (List.getElem?_eq_some_iff.mp position).1
  rw [callColumn]
  rw [split, sides_append, start, Nat.add_assoc, List.getElem?_append_right (Nat.le_add_right _ _),
    Nat.add_sub_cancel_left]
  rw [sides_cons, List.append_assoc, ← wide, List.getElem?_append_right (Nat.le_add_right _ _),
    Nat.add_sub_cancel_left, List.getElem?_append_left (by simpa using bound), List.getElem?_map,
    position]
  rfl

/-- The group columns come first. -/
theorem getElem?_sides_group {kinds : List CallKind} (some : kinds ≠ []) {index : Nat}
    (bound : index < groups.length) :
    (aggregate.sides groups result kinds)[index]? = groups[index]? := by
  rcases List.exists_cons_of_ne_nil some with ⟨kind, rest, rfl⟩
  rw [sides_cons, List.append_assoc, List.getElem?_append_left bound]

end Sides

theorem kind_beq_none (call : AggregateCall) : (call.kind == none) = !call.distinct := by
  rw [AggregateCall.kind]
  cases call.distinct <;> rfl

/-- Where there are distinct calls, all calls share an argument list when no call is
plain and there is no second list. -/
theorem soleArguments?_of_cons {args : List Nat} {rest : List (List Nat)}
    (lists : aggregate.argumentLists = args :: rest) :
    aggregate.soleArguments? =
      if aggregate.calls.countP (!·.distinct) = 0 ∧ rest.length = 0 then some args else none := by
  have plain : (aggregate.callsOf none).length = aggregate.calls.countP (!·.distinct) := by
    simp only [callsOf, kind_beq_none, List.countP_eq_length_filter]
  rw [soleArguments?, lists, ← plain]
  cases aggregate.callsOf none <;> cases rest <;> simp

/-- Where one argument list is the only kind, all calls are of this kind. -/
theorem callsOf_eq_calls {args : List Nat} (sole : aggregate.soleArguments? = some args) :
    aggregate.callsOf (some args) = aggregate.calls ∧ aggregate.argumentLists = [args] := by
  rw [soleArguments?] at sole
  split at sole
  · rename_i sole' plain single
    rcases Option.some.inj sole with rfl
    refine ⟨?_, single⟩
    rw [callsOf]
    rw [List.filter_eq_self]
    intro call member
    cases kind : call.kind with
    | none =>
        have isPlain := mem_callsOf.mpr ⟨member, kind⟩
        rw [plain] at isPlain
        simp at isPlain
    | some list =>
        rcases kind_eq_some_iff.mp kind with ⟨distinct, equal⟩
        have listed := mem_argumentLists.mpr ⟨call, member, distinct, equal⟩
        rw [single] at listed
        simpa using listed
  · simp at sole

end Aggregate

namespace DistinctSelection

variable {groupCount : Nat} {args : List Nat}

theorem mem_ordinals {ordinal : Nat} :
    ordinal ∈ ordinals groupCount args ↔ ordinal < groupCount ∨ ordinal ∈ args := by
  simp [ordinals, List.mem_eraseDups]

/-- A selection keeps the group columns where they are. -/
theorem take_ordinals : (ordinals groupCount args).take groupCount = List.range groupCount := by
  have apart : (List.range groupCount).Pairwise fun left right => (left == right) = false :=
    List.nodup_range.imp fun differs => by simpa using differs
  rw [ordinals, List.eraseDups_append, FirstOccurrence.eraseDups_eq_self apart,
    List.take_append_of_le_length (by simp)]
  simp

theorem groupCount_le_length_ordinals : groupCount ≤ (ordinals groupCount args).length := by
  have lengths := congrArg List.length (@take_ordinals groupCount args)
  simp only [List.length_take, List.length_range] at lengths
  omega

/-- A selected column is found where it is looked up. -/
theorem getElem?_idxOf_ordinals {ordinal : Nat} (selected : ordinal ∈ ordinals groupCount args) :
    (ordinals groupCount args)[(ordinals groupCount args).idxOf ordinal]? = some ordinal := by
  have bound := List.idxOf_lt_length_of_mem selected
  rw [List.getElem?_eq_getElem bound, List.getElem_idxOf]

end DistinctSelection

end QueryPlan
