/-!
# First occurrences

Grouping and deduplication keep the first of all equal members of a list, where
equality is a Boolean relation that need not be identity. `eraseDups` is the
list of these first members. This module says how it commutes with filters and
maps that respect the relation, so that two ways of deduplicating the same rows
can be shown to keep the same representatives.
-/

namespace QueryPlan.FirstOccurrence

variable {α β : Type} [BEq α] [BEq β]

/-- A test that gives one answer on equal members. -/
def RespectedBy (test : α → Bool) : Prop :=
  ∀ left right, (left == right) = true → test left = test right

/-- A map that gives equal results on equal members. -/
def Respectful (image : α → β) : Prop :=
  ∀ left right, (left == right) = true → (image left == image right) = true

/-- The first occurrences among the members that pass a test are the first
occurrences that pass it. -/
theorem filter_eraseDups (test : α → Bool) (respected : RespectedBy test) (members : List α) :
    members.eraseDups.filter test = (members.filter test).eraseDups := by
  match members with
  | [] => rfl
  | first :: rest =>
      have ih := filter_eraseDups test respected (rest.filter fun other => !other == first)
      rw [List.eraseDups_cons]
      cases kept : test first with
      | true =>
          simp only [List.filter_cons, kept, if_true, List.eraseDups_cons]
          rw [ih, List.filter_filter, List.filter_filter]
          simp only [Bool.and_comm]
      | false =>
          -- The members equal to `first` fail the test together with it.
          have untouched : (rest.filter fun other => !other == first).filter test =
              rest.filter test := by
            rw [List.filter_filter]
            apply List.filter_congr
            intro other _
            cases equal : other == first with
            | true => simp [respected other first equal, kept]
            | false => simp
          simp only [List.filter_cons, kept]
          rw [ih, untouched]
          rfl
termination_by members.length
decreasing_by exact Nat.lt_succ_of_le (List.length_filter_le _ _)

section Laws

variable [EquivBEq α]

/-- Members that are equal to one and the same member pass the same tests. -/
theorem beq_respectedBy (member : α) : RespectedBy fun other : α => !other == member := by
  intro left right equal
  simp only [BEq.congr_left equal]

/-- The first occurrences, with the deduplication of the rest made first. -/
theorem eraseDups_cons (first : α) (rest : List α) :
    (first :: rest).eraseDups = first :: rest.eraseDups.filter fun other => !other == first := by
  rw [List.eraseDups_cons, filter_eraseDups _ (beq_respectedBy first)]

theorem eraseDups_sublist (members : List α) : members.eraseDups.Sublist members := by
  induction members with
  | nil => exact .slnil
  | cons first rest ih =>
      rw [eraseDups_cons]
      exact .cons_cons _ (List.filter_sublist.trans ih)

/-- No two of the first occurrences are equal. -/
theorem eraseDups_pairwise (members : List α) :
    members.eraseDups.Pairwise fun left right => (left == right) = false := by
  induction members with
  | nil => exact .nil
  | cons first rest ih =>
      rw [eraseDups_cons]
      refine List.pairwise_cons.mpr ⟨?_, ih.filter _⟩
      intro other membership
      have differs := (List.mem_filter.mp membership).2
      rw [BEq.comm]
      simpa using differs

/-- A list without equal members is left as it is. -/
theorem eraseDups_eq_self {members : List α}
    (apart : members.Pairwise fun left right => (left == right) = false) :
    members.eraseDups = members := by
  induction apart with
  | nil => rfl
  | @cons first rest differs _ ih =>
      rw [eraseDups_cons, ih, List.filter_eq_self.mpr]
      intro other membership
      rw [BEq.comm, differs other membership]
      rfl

/-- Among members that are apart, only a member itself is equal to it. -/
theorem filter_beq_eq_singleton {members : List α}
    (apart : members.Pairwise fun left right => (left == right) = false) {member : α}
    (membership : member ∈ members) : members.filter (member == ·) = [member] := by
  induction apart with
  | nil => simp at membership
  | @cons first rest differs _ ih =>
      rcases List.mem_cons.mp membership with rfl | later
      · rw [List.filter_cons_of_pos BEq.rfl, List.filter_eq_nil_iff.mpr]
        intro other present
        rw [differs other present]
        exact Bool.noConfusion
      · have unequal : ¬(member == first) = true := by
          rw [BEq.comm, differs member later]
          exact Bool.noConfusion
        rw [List.filter_cons_of_neg unequal, ih later]

end Laws

section Maps

variable [EquivBEq α] [EquivBEq β] {image : α → β}

/-- Deduplication before a respectful map does not change what is left after a
deduplication behind it. -/
theorem eraseDups_map_eraseDups (respectful : Respectful image) (members : List α) :
    (members.eraseDups.map image).eraseDups = (members.map image).eraseDups := by
  induction members with
  | nil => rfl
  | cons first rest ih =>
      rw [eraseDups_cons first rest, List.map_cons, List.map_cons, eraseDups_cons, eraseDups_cons,
        ← ih, filter_eraseDups _ (beq_respectedBy (image first)),
        filter_eraseDups _ (beq_respectedBy (image first)), List.filter_map, List.filter_map,
        List.filter_filter]
      congr 3
      apply List.filter_congr
      intro other _
      cases equal : other == first with
      | true => simp [respectful other first equal]
      | false => simp

/-- Where a map neither joins nor separates members, it commutes with
deduplication. -/
theorem map_eraseDups (members : List α)
    (faithful : ∀ left ∈ members, ∀ right ∈ members,
      (image left == image right) = (left == right)) :
    members.eraseDups.map image = (members.map image).eraseDups := by
  induction members with
  | nil => rfl
  | cons first rest ih =>
      have restFaithful : ∀ left ∈ rest, ∀ right ∈ rest,
          (image left == image right) = (left == right) := by
        intro left leftMember right rightMember
        exact faithful left (List.mem_cons_of_mem _ leftMember) right
          (List.mem_cons_of_mem _ rightMember)
      rw [eraseDups_cons, List.map_cons, List.map_cons, eraseDups_cons, ← ih restFaithful,
        List.filter_map]
      congr 2
      apply List.filter_congr
      intro other membership
      have member := (eraseDups_sublist rest).subset membership
      simp only [Function.comp_apply]
      rw [faithful other (List.mem_cons_of_mem _ member) first List.mem_cons_self]

end Maps

end QueryPlan.FirstOccurrence
