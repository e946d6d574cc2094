import Mathlib.Data.List.Nodup
import QueryPlan.Proofs.Elimination.Typing

/-!
# Gathering the columns of a selection

Gathering columns one after the other comes to the same as two passes over all
columns that are asked for: it breaks off at the first one that the input does
not have, and when the input has all of them it gathers their first occurrences.
A selection therefore builds the nodes of its template, or leaves no trace.
-/

namespace QueryPlan

/-- A further member is a first occurrence when it has not occurred yet. -/
theorem eraseDups_concat (members : List Nat) (member : Nat) :
    (members ++ [member]).eraseDups =
      if member ∈ members then members.eraseDups else members.eraseDups ++ [member] := by
  rw [List.eraseDups_append]
  split
  · rename_i present
    rw [show [member].removeAll members = [] by simp [List.removeAll, present], List.eraseDups_nil,
      List.append_nil]
  · rename_i absent
    rw [show [member].removeAll members = [member] by simp [List.removeAll, absent]]
    rfl

/-- In a list without repetitions the place of a member is where it stands. -/
theorem idxOf?_eq_some_iff_getElem? {members : List Nat} (nodup : members.Nodup)
    {member place : Nat} :
    members.idxOf? member = some place ↔ members[place]? = some member := by
  rw [List.idxOf?_eq_some_iff, List.getElem?_eq_some_iff]
  constructor
  · rintro ⟨bound, found, _⟩
    exact ⟨bound, found⟩
  · rintro ⟨bound, found⟩
    refine ⟨bound, found, ?_⟩
    intro earlier before same
    have twice : members[earlier] = members[place] := same.trans found.symm
    exact absurd ((nodup.getElem_inj_iff).mp twice) (Nat.ne_of_lt before)

/-- A member is looked up where it first stands. -/
theorem idxOf?_of_mem {members : List Nat} {member : Nat} (present : member ∈ members) :
    members.idxOf? member = some (members.idxOf member) := by
  induction members with
  | nil => exact absurd present List.not_mem_nil
  | cons first rest ih =>
      rw [List.idxOf?_cons, List.idxOf_cons]
      by_cases same : (first == member) = true
      · rw [if_pos same, same, cond_true]
      · have later := (List.mem_cons.mp present).resolve_left fun equal => same (by simp [equal])
        rw [if_neg same, ih later, Bool.of_not_eq_true same, cond_false]
        rfl

theorem nodup_eraseDups (members : List Nat) : members.eraseDups.Nodup :=
  (FirstOccurrence.eraseDups_pairwise members).imp fun differs => by simpa using differs

namespace DistinctSelection

/-- The columns that a selection is asked for, in order. -/
def asked (groupCount : Nat) (args : List Nat) : List Nat := List.range groupCount ++ args

variable {groupCount : Nat} {args : List Nat}

theorem ordinals_eq : ordinals groupCount args = (asked groupCount args).eraseDups := rfl

/-- The place of a selected column is where it stands. -/
theorem idxOf?_ordinals_iff {ordinal place : Nat} :
    (ordinals groupCount args).idxOf? ordinal = some place ↔
      (ordinals groupCount args)[place]? = some ordinal :=
  idxOf?_eq_some_iff_getElem? (nodup_eraseDups _)

/-- Group columns are selected at their own places. -/
theorem idxOf?_ordinals_group {index : Nat} (bound : index < groupCount) :
    (ordinals groupCount args).idxOf? index = some index := by
  rw [idxOf?_ordinals_iff]
  have group : ((ordinals groupCount args).take groupCount)[index]? = some index := by
    rw [take_ordinals, List.getElem?_range bound]
  rwa [List.getElem?_take_of_lt bound] at group

namespace Gathered

variable {input : Schema}

/-- What is gathered of columns that the input has. -/
def ofOrdinals (input : Schema) (ordinals : List Nat) : Gathered :=
  ⟨ordinals, DistinctSelection.exprs input ordinals, (columns input ordinals).map (·.2)⟩

/-- One more column extends what is gathered by its first occurrence. -/
theorem add_ofOrdinals {before : List Nat} (bounded : ∀ ordinal ∈ before, ordinal < input.width)
    (ordinal : Nat) :
    add input (ofOrdinals input before.eraseDups) ordinal =
      if input.width ≤ ordinal then
        .error (.malformed (.selectionOutOfRange ordinal input.width))
      else
        .ok (ofOrdinals input (before ++ [ordinal]).eraseDups) := by
  rw [add, ofOrdinals, eraseDups_concat]
  simp only [List.mem_eraseDups]
  by_cases present : ordinal ∈ before
  · rw [if_pos present, if_pos present, if_neg (Nat.not_le_of_lt (bounded ordinal present))]
    rfl
  · rw [if_neg present, if_neg present]
    by_cases missing : input.width ≤ ordinal
    · have absent : input.field? ordinal = none := List.getElem?_eq_none missing
      rw [if_pos missing, absent]
    · have bound : ordinal < input.fields.length := Nat.lt_of_not_le missing
      have found : input.field? ordinal = some input.fields[ordinal] :=
        List.getElem?_eq_getElem bound
      rw [if_neg missing, found]
      simp [ofOrdinals, DistinctSelection.exprs, columns, List.filterMap_append, found]

/-- Gathering breaks off at the first missing column, and otherwise gathers the
first occurrences. -/
theorem foldlM_add {before : List Nat} (bounded : ∀ ordinal ∈ before, ordinal < input.width)
    (after : List Nat) :
    after.foldlM (add input) (ofOrdinals input before.eraseDups) =
      match after.find? (input.width ≤ ·) with
      | some ordinal => .error (.malformed (.selectionOutOfRange ordinal input.width))
      | none => .ok (ofOrdinals input (before ++ after).eraseDups) := by
  induction after generalizing before with
  | nil => rw [List.append_nil]; rfl
  | cons ordinal rest ih =>
      rw [List.foldlM_cons, add_ofOrdinals bounded, List.find?_cons]
      by_cases missing : input.width ≤ ordinal
      · rw [if_pos missing, decide_eq_true missing]
        rfl
      · rw [if_neg missing, decide_eq_false missing]
        have bounded' : ∀ other ∈ before ++ [ordinal], other < input.width := by
          intro other member
          rcases List.mem_append.mp member with earlier | last
          · exact bounded other earlier
          · rw [List.mem_singleton.mp last]
            exact Nat.lt_of_not_le missing
        have further := ih bounded'
        rw [List.append_assoc, List.singleton_append] at further
        exact further

/-- A row of columns is gathered like any list of columns. -/
theorem addRange_eq (first count : Nat) (gathered : Gathered) :
    addRange input first count gathered = (List.range' first count).foldlM (add input) gathered := by
  induction count generalizing first gathered with
  | zero => rfl
  | succ count ih =>
      rw [addRange, List.range'_succ, List.foldlM_cons]
      cases add input gathered first with
      | error error => rfl
      | ok later => exact ih (first + 1) later

/-- Gathering, said in two passes: the search for a missing column and the
deduplication. -/
theorem ofInput_eq (input : Schema) (groupCount : Nat) (args : List Nat) :
    ofInput input groupCount args =
      match (asked groupCount args).find? (input.width ≤ ·) with
      | some ordinal => .error (.malformed (.selectionOutOfRange ordinal input.width))
      | none => .ok (ofOrdinals input (DistinctSelection.ordinals groupCount args)) := by
  have empty : Gathered.empty = ofOrdinals input ([] : List Nat).eraseDups := rfl
  have gathered := @foldlM_add input [] (by simp) (asked groupCount args)
  rw [List.nil_append, asked, List.foldlM_append] at gathered
  rw [ofInput, addRange_eq, empty, ← List.range_eq_range']
  exact gathered

end Gathered

end DistinctSelection

namespace Firing

open DistinctSelection

variable {input : PlanNode} {groupCount : Nat} {args : List Nat}

/-- A selection of which a column is missing leaves no trace. -/
theorem perform_selectDistinct_missing {ordinal : Nat}
    (missing : (asked groupCount args).find? (input.schema.width ≤ ·) = some ordinal)
    (firing : Firing) :
    Step.perform (selectDistinct input groupCount args) firing =
      (.error (.error (.malformed (.selectionOutOfRange ordinal input.schema.width))), firing) := by
  rw [selectDistinct, Gathered.ofInput_eq, missing, Step.perform_bind, Step.perform_ofExcept_error]

/-- A selection of columns that are all there builds its two nodes. -/
theorem perform_selectDistinct_complete
    (complete : ∀ ordinal ∈ asked groupCount args, ordinal < input.schema.width)
    (firing : Firing) :
    Step.perform (selectDistinct input groupCount args) firing =
      (.ok ((template input (ordinals groupCount args)).place firing.nextKey firing.nextId,
          ordinals groupCount args), firing.advance 2) := by
  have noneMissing : (asked groupCount args).find? (input.schema.width ≤ ·) = none := by
    rw [List.find?_eq_none]
    intro ordinal member
    simpa using complete ordinal member
  have bounded : ∀ ordinal ∈ ordinals groupCount args, ordinal < input.schema.width := by
    intro ordinal selected
    rw [ordinals_eq, List.mem_eraseDups] at selected
    exact complete ordinal selected
  have gathered : Step.perform (Step.ofExcept (Gathered.ofInput input.schema groupCount args))
      firing = (.ok (.ofOrdinals input.schema (ordinals groupCount args)), firing) := by
    rw [Gathered.ofInput_eq, noneMissing]
    rfl
  have width : (exprs input.schema (ordinals groupCount args)).length =
      (ordinals groupCount args).length := by
    rw [← length_types bounded, types, List.length_map]
  have projected : Step.perform
      (create (projection input.schema (ordinals groupCount args)) [input]) firing =
        (.ok _, firing.advance 1) :=
    perform_create_placed (typed_projected input _) firing
  have grouped : Step.perform
      (create (.aggregate ⟨(ordinals groupCount args).length, []⟩) [_]) (firing.advance 1) =
        (.ok _, firing.advance 2) :=
    perform_create_placed (typed_template bounded) firing
  rw [selectDistinct, Step.perform_bind_of_ok gathered]
  simp only [Gathered.ofOrdinals, width]
  rw [← projection_eq, Step.perform_bind_of_ok projected]
  exact Step.perform_bind_of_ok grouped

end Firing

end QueryPlan
