import Mathlib.Data.List.Nodup
import Mathlib.Data.List.Basic
import QueryPlan.Proofs.Elimination.Outcome

/-!
# Selecting distinct columns

A selection is asked for the group columns and then for some arguments. It is
refused exactly when one of these columns is missing from the input, and then
names the first one and leaves no trace. Otherwise it gives every column that is
asked for one place, in the order in which the columns first occur, and builds a
projection and an aggregate whose fields are those columns.
-/

namespace QueryPlan

/-- Whether `place?` gives the members of a list the places from zero to `count`,
in the order in which they first occur, and has nothing else. -/
structure Enumerates (asked : List Nat) (count : Nat) (place? : Nat → Option Nat) : Prop where
  defined : ∀ member, (∃ place, place? member = some place) ↔ member ∈ asked
  onto : ∀ place, (∃ member, place? member = some place) ↔ place < count
  injective : ∀ left right place, place? left = some place → place? right = some place → left = right
  increasing : ∀ left right leftPlace rightPlace,
    place? left = some leftPlace → place? right = some rightPlace →
    (leftPlace < rightPlace ↔ asked.idxOf left < asked.idxOf right)

namespace FirstOccurrence

/-- The first occurrences stand in the order in which the members first occur. -/
theorem eraseDups_pairwise_idxOf (members : List Nat) :
    members.eraseDups.Pairwise fun left right => members.idxOf left < members.idxOf right := by
  induction members with
  | nil => exact .nil
  | cons first rest ih =>
      rw [eraseDups_cons, List.pairwise_cons]
      constructor
      · intro other present
        have differs : first ≠ other := by
          intro same
          simp [same] at present
        rw [List.idxOf_cons_self, List.idxOf_cons_ne rest differs]
        exact Nat.succ_pos _
      · have later := ih.filter fun other => !other == first
        refine later.imp_of_mem ?_
        intro left right leftPresent rightPresent before
        have leftDiffers : first ≠ left := by
          intro same
          simp [same] at leftPresent
        have rightDiffers : first ≠ right := by
          intro same
          simp [same] at rightPresent
        rw [List.idxOf_cons_ne rest leftDiffers, List.idxOf_cons_ne rest rightDiffers]
        exact Nat.succ_lt_succ before

end FirstOccurrence

/-- The places of the first occurrences enumerate the members of a list. -/
theorem enumerates_eraseDups (asked : List Nat) :
    Enumerates asked asked.eraseDups.length asked.eraseDups.idxOf? := by
  have nodup := nodup_eraseDups asked
  have ordered := FirstOccurrence.eraseDups_pairwise_idxOf asked
  have before {left right leftPlace rightPlace : Nat}
      (leftFound : asked.eraseDups[leftPlace]? = some left)
      (rightFound : asked.eraseDups[rightPlace]? = some right) (less : leftPlace < rightPlace) :
      asked.idxOf left < asked.idxOf right := by
    obtain ⟨leftBound, rfl⟩ := List.getElem?_eq_some_iff.mp leftFound
    obtain ⟨rightBound, rfl⟩ := List.getElem?_eq_some_iff.mp rightFound
    exact List.pairwise_iff_getElem.mp ordered leftPlace rightPlace leftBound rightBound less
  constructor
  case defined =>
    intro member
    rw [← Option.isSome_iff_exists, List.isSome_idxOf?, List.mem_eraseDups]
  case onto =>
    intro place
    simp only [idxOf?_eq_some_iff_getElem? nodup]
    constructor
    · rintro ⟨member, found⟩
      exact (List.getElem?_eq_some_iff.mp found).1
    · intro bound
      exact ⟨_, List.getElem?_eq_getElem bound⟩
  case injective =>
    intro left right place leftFound rightFound
    rw [idxOf?_eq_some_iff_getElem? nodup] at leftFound rightFound
    exact Option.some.inj (leftFound.symm.trans rightFound)
  case increasing =>
    intro left right leftPlace rightPlace leftFound rightFound
    rw [idxOf?_eq_some_iff_getElem? nodup] at leftFound rightFound
    constructor
    · exact before leftFound rightFound
    · intro earlier
      refine Nat.lt_of_not_le fun notLess => ?_
      rcases Nat.lt_or_eq_of_le notLess with greater | same
      · exact Nat.lt_asymm earlier (before rightFound leftFound greater)
      · rw [same, leftFound] at rightFound
        rw [Option.some.inj rightFound] at earlier
        exact Nat.lt_irrefl _ earlier

namespace DistinctSelection

variable {groupCount : Nat} {args : List Nat}

/-- Where the input has all selected columns, the selection has at every place
the column that stands there, under its own name and with its own type. -/
theorem getElem?_columns {input : Schema} {ordinals : List Nat}
    (bounded : ∀ ordinal ∈ ordinals, ordinal < input.width) {place ordinal : Nat}
    (found : ordinals[place]? = some ordinal) :
    ∃ field, input.field? ordinal = some field ∧
      (columns input ordinals)[place]? = some (.column ordinal field.type, field.name) ∧
      (ordinals.filterMap input.field?)[place]? = some field := by
  induction ordinals generalizing place with
  | nil => simp at found
  | cons first rest ih =>
      obtain ⟨firstBound, restBounded⟩ := List.forall_mem_cons.mp bounded
      have present : input.field? first = some input.fields[first] :=
        List.getElem?_eq_getElem firstBound
      simp only [columns, List.filterMap_cons, present, Option.map_some]
      cases place with
      | zero =>
          obtain rfl := Option.some.inj found
          exact ⟨_, present, rfl, rfl⟩
      | succ place => exact ih restBounded found

theorem length_filterMap_field? {input : Schema} {ordinals : List Nat}
    (bounded : ∀ ordinal ∈ ordinals, ordinal < input.width) :
    (ordinals.filterMap input.field?).length = ordinals.length := by
  induction ordinals with
  | nil => rfl
  | cons first rest ih =>
      obtain ⟨firstBound, restBounded⟩ := List.forall_mem_cons.mp bounded
      have present : input.field? first = some input.fields[first] :=
        List.getElem?_eq_getElem firstBound
      rw [List.filterMap_cons_some present, List.length_cons, List.length_cons, ih restBounded]

/-- The node of a selection has the fields of its projection. -/
theorem schema_place_template (input : PlanNode) {ordinals : List Nat}
    (bounded : ∀ ordinal ∈ ordinals, ordinal < input.schema.width) (key id : Nat) :
    ((template input ordinals).place key id).schema.fields =
      ordinals.filterMap input.schema.field? := by
  simp only [template, Template.place, Template.placeAll, PlanNode.assemble, List.map_cons,
    Operator.fields_aggregate, fields_projection, List.map_nil, List.append_nil]
  exact List.take_of_length_le (Nat.le_of_eq (length_filterMap_field? bounded))

end DistinctSelection

namespace Firing

open DistinctSelection

variable {input : PlanNode} {groupCount : Nat} {args : List Nat}

/-- A selection is refused exactly when the input misses a column that is asked
for; the error names the first of them, and the firing is as it was before.
Otherwise every column that is asked for gets one place, in the order of first
occurrence, so that group columns keep theirs. The node groups by all fields of
a projection of the input, which has at each place the column with this place,
and both nodes take an id. -/
theorem selectDistinct_exact (input : PlanNode) (groupCount : Nat) (args : List Nat)
    (firing : Firing) :
    let width := input.schema.width
    let asked := List.range groupCount ++ args
    let outcome := Step.perform (selectDistinct input groupCount args) firing
    ((∃ failure, outcome.1 = .error failure) ↔ ∃ ordinal ∈ asked, width ≤ ordinal) ∧
    (∀ before ordinal after, asked = before ++ ordinal :: after →
      (∀ earlier ∈ before, earlier < width) → width ≤ ordinal →
      outcome =
        (.error (.error (.malformed (.selectionOutOfRange ordinal width))), firing)) ∧
    ((∀ ordinal ∈ asked, ordinal < width) →
      ∃ node projection ordinals exprs names,
        outcome = (.ok (node, ordinals), firing.advance 2) ∧
        Enumerates asked ordinals.length ordinals.idxOf? ∧
        (∀ index, index < groupCount → ordinals.idxOf? index = some index) ∧
        node.operator = .aggregate ⟨ordinals.length, []⟩ ∧ node.inputs = [projection] ∧
        projection.operator = .projection exprs names ∧ projection.inputs = [input] ∧
        exprs.length = ordinals.length ∧ node.schema = projection.schema ∧
        node.schema.width = ordinals.length ∧
        (∀ ordinal place, ordinals.idxOf? ordinal = some place → ∃ field,
          input.schema.field? ordinal = some field ∧
          exprs[place]? = some (.column ordinal field.type) ∧
          names[place]? = some field.name ∧
          node.schema.field? place = some field) ∧
        projection.id = firing.nextId ∧ node.id = firing.nextId + 1) := by
  intro width asked outcome
  have refused : ∀ ordinal, asked.find? (width ≤ ·) = some ordinal →
      outcome = (.error (.error (.malformed (.selectionOutOfRange ordinal width))), firing) :=
    fun _ missing => perform_selectDistinct_missing missing firing
  refine ⟨?refusal, ?first, ?selection⟩
  case refusal =>
    constructor
    · rintro ⟨failure, failed⟩
      by_cases complete : ∀ ordinal ∈ asked, ordinal < width
      · simp only [outcome, perform_selectDistinct_complete complete firing] at failed
        exact nomatch failed
      · simpa using complete
    · rintro ⟨ordinal, member, missing⟩
      have found : (asked.find? (width ≤ ·)).isSome = true := by
        rw [List.find?_isSome]
        exact ⟨ordinal, member, decide_eq_true missing⟩
      obtain ⟨first, isFirst⟩ := Option.isSome_iff_exists.mp found
      rw [refused first isFirst]
      exact ⟨_, rfl⟩
  case first =>
    intro before ordinal after split within missing
    apply refused
    rw [List.find?_eq_some_iff_append]
    refine ⟨decide_eq_true missing, before, after, split, ?_⟩
    intro earlier member
    simpa using within earlier member
  case selection =>
    intro complete
    have bounded : ∀ ordinal ∈ ordinals groupCount args, ordinal < width := by
      intro ordinal selected
      rw [ordinals_eq, List.mem_eraseDups] at selected
      exact complete ordinal selected
    have lengths := length_filterMap_field? bounded
    have fields := schema_place_template input bounded firing.nextKey firing.nextId
    refine ⟨_, _, ordinals groupCount args, exprs input.schema (ordinals groupCount args), _,
      perform_selectDistinct_complete complete firing, enumerates_eraseDups asked,
      fun _ => idxOf?_ordinals_group, rfl, rfl, projection_eq _ _, rfl, ?_, ?_, ?_, ?_, rfl, rfl⟩
    · rw [← length_types bounded, types, List.length_map]
    · apply congrArg Schema.mk
      exact fields.trans (fields_projection _ _ [input.schema]).symm
    · exact (congrArg List.length fields).trans lengths
    · intro ordinal place found
      rw [idxOf?_ordinals_iff] at found
      obtain ⟨field, present, column, selected⟩ := getElem?_columns bounded found
      refine ⟨field, present, ?_, ?_, ?_⟩
      · rw [exprs, List.getElem?_map, column]
        rfl
      · rw [List.getElem?_map, column]
        rfl
      · rw [Schema.field?, fields]
        exact selected

/-- `selectDistinct_exact` for a selection that asks for the group column again,
and for one that asks for two missing columns. -/
theorem selectDistinct_exact_orders :
    let firing : Firing := .start ⟨Sample.orders, []⟩ 4 4
    (∃ node ordinals,
      Step.perform (selectDistinct Sample.orders 1 [1, 0]) firing =
        (.ok (node, ordinals), firing.advance 2) ∧
      ordinals.idxOf? 0 = some 0 ∧ node.id = 5) ∧
    Step.perform (selectDistinct Sample.orders 1 [0, 7, 5]) firing =
      (.error (.error (.malformed (.selectionOutOfRange 7 2))), firing) := by
  intro firing
  constructor
  · obtain ⟨node, _, ordinals, _, _, selected, _, groups, _, _, _, _, _, _, _, _, _, id⟩ :=
      (selectDistinct_exact Sample.orders 1 [1, 0] firing).2.2 (by decide)
    exact ⟨node, ordinals, selected, groups 0 Nat.one_pos, id⟩
  · exact (selectDistinct_exact Sample.orders 1 [0, 7, 5] firing).2.1 [0, 0] 7 [5] rfl (by decide)
      (by decide)

end Firing

end QueryPlan
