import QueryPlan.Proofs.Rewrite.Confluence

/-!
# Size of the replacement

How many new nodes the elimination makes: three when all calls are distinct over
one argument list, and otherwise four for every argument list, next to the side
of the plain calls and the projection.
-/

namespace QueryPlan

namespace Aggregate

variable {aggregate : Aggregate}

/-- An aggregate with a single list has the arguments of this list. -/
theorem SingleList.soleArguments? (single : aggregate.SingleList) :
    ∃ args, aggregate.soleArguments? = some args := by
  rcases single with ⟨distinct, args, all⟩
  have plain : aggregate.callsOf none = [] := by
    rw [List.eq_nil_iff_forall_not_mem]
    intro call member
    rcases mem_callsOf.mp member with ⟨present, kind⟩
    rw [kind_eq_some_iff.mpr (all call present)] at kind
    simp at kind
  have lists : aggregate.argumentLists = [args] := by
    rw [← List.perm_singleton,
      List.perm_ext_iff_of_nodup argumentLists_nodup (by simp : [args].Nodup)]
    intro other
    rw [mem_argumentLists, List.mem_singleton]
    constructor
    · rintro ⟨call, present, _, rfl⟩
      exact (all call present).2
    · rintro rfl
      rcases List.any_eq_true.mp distinct with ⟨call, present, isDistinct⟩
      exact ⟨call, present, isDistinct, (all call present).2⟩
  rw [Aggregate.soleArguments?, plain, lists]
  exact ⟨args, rfl⟩

theorem soleArguments?_eq_none_iff : aggregate.soleArguments? = none ↔ ¬aggregate.SingleList := by
  constructor
  · intro none single
    rcases single.soleArguments? with ⟨args, sole⟩
    rw [none] at sole
    simp at sole
  · intro several
    cases sole : aggregate.soleArguments? with
    | none => rfl
    | some args => exact absurd (singleList_of_soleArguments? sole) several

instance : Decidable aggregate.SingleList :=
  decidable_of_iff (aggregate.soleArguments?.isSome = true) (by
    rw [← Option.ne_none_iff_isSome, ne_eq, soleArguments?_eq_none_iff, Classical.not_not])

/-- By how many nodes the elimination of an aggregate makes a plan larger. -/
def growth (aggregate : Aggregate) : Nat :=
  if aggregate.SingleList then 2 else 4 * aggregate.argumentLists.length + 1

end Aggregate

/-- By how many nodes an elimination at an operator makes a plan larger. -/
def Operator.growth : Operator → Nat
  | .aggregate grouping => grouping.growth
  | _ => 0

namespace DistinctElimination

open PlanNode

variable {aggregate : Aggregate} {node input : PlanNode}

theorem size_distinctSide (args : List Nat) : (distinctSide aggregate input args).size = 3 := rfl

theorem size_joinSide (left : Template) (args : List Nat) :
    (joinSide aggregate input left args).size = left.size + 4 := by
  rw [joinSide]
  simp only [Template.size, Template.sizeAll, size_distinctSide]

/-- The new nodes take the place of the aggregate itself, and the plan grows by
the other ones. -/
theorem size_templateOf_eq (eliminable : node.Eliminable aggregate input) :
    (templateOf node).size = node.operator.growth + 1 := by
  rw [templateOf_eq eliminable, eliminable.operator, replacement, Operator.growth, Aggregate.growth]
  cases sole : aggregate.soleArguments? with
  | some args =>
      rw [if_pos (Aggregate.singleList_of_soleArguments? sole)]
      exact size_distinctSide args
  | none =>
      have sides := foldl_joinSide aggregate input
        (motive := fun kinds template => template.size + 3 = 4 * kinds.length) rfl (by
          intro before args after left _ _ counted
          rw [size_joinSide, List.length_append, List.length_singleton]
          omega)
      rw [Aggregate.kinds, List.length_cons, List.length_map] at sides
      rw [if_neg (Aggregate.soleArguments?_eq_none_iff.mp sole), joined]
      simp only [Template.size, Template.sizeAll]
      omega

end DistinctElimination

end QueryPlan
