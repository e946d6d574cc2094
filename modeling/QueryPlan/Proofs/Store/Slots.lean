import Mathlib.Data.List.Nodup

/-!
# Numbered slots

Members are kept under numbers that do not change while others come and go. The
number of a removed member is vacant until a new member takes it; the number that
was vacated last is taken first, and a further one is opened only when none is
vacant.
-/

namespace QueryPlan

/-- Members under numbers, the newest first, and the vacant numbers, the one that was
vacated last first. -/
structure Slots (α : Type) where
  members : List (Nat × α)
  vacant : List Nat
  /-- How many numbers have been opened. -/
  opened : Nat
  /-- Every number is vacant or that of one member. -/
  split : (vacant ++ members.map (·.1)).Perm (List.range opened)

namespace Slots

variable {α : Type}

/-- No members. -/
def empty : Slots α := ⟨[], [], 0, .refl _⟩

/-- The numbers of the members. -/
def numbers (slots : Slots α) : List Nat := slots.members.map (·.1)

/-- The contents, the newest first. -/
def contents (slots : Slots α) : List α := slots.members.map (·.2)

/-- The number that the next member takes. -/
def next (slots : Slots α) : Nat := slots.vacant.headD slots.opened

theorem nodup_split (slots : Slots α) : (slots.vacant ++ slots.numbers).Nodup :=
  slots.split.nodup_iff.mpr List.nodup_range

theorem nodup (slots : Slots α) : slots.numbers.Nodup :=
  (List.nodup_append.mp slots.nodup_split).2.1

theorem next_not_mem (slots : Slots α) : slots.next ∉ slots.numbers := by
  intro taken
  cases vacant : slots.vacant with
  | nil =>
      rw [next, vacant, List.headD_nil] at taken
      have opened := slots.split.mem_iff.mp (List.mem_append_right slots.vacant taken)
      exact absurd (List.mem_range.mp opened) (Nat.lt_irrefl _)
  | cons first rest =>
      rw [next, vacant, List.headD_cons] at taken
      have apart := slots.nodup_split
      rw [vacant] at apart
      exact (List.nodup_append.mp apart).2.2 first List.mem_cons_self first taken rfl

/-- Adds a member. -/
def add (slots : Slots α) (member : α) : Slots α where
  members := (slots.next, member) :: slots.members
  vacant := slots.vacant.tail
  opened := if slots.vacant.isEmpty then slots.opened + 1 else slots.opened
  split := by
    have split := slots.split
    cases vacant : slots.vacant with
    | nil =>
        rw [vacant, List.nil_append] at split
        simp only [next, vacant, List.tail_nil, List.nil_append, List.headD_nil, List.map_cons,
          List.isEmpty_nil, if_true, List.range_succ]
        exact (split.cons _).trans (List.perm_append_singleton _ _).symm
    | cons first rest =>
        rw [vacant] at split
        simp only [next, vacant, List.tail_cons, List.headD_cons, List.map_cons, List.isEmpty_cons,
          Bool.false_eq_true, if_false]
        exact List.perm_middle.trans split

/-- Removes the member with a number, if there is one. -/
def remove (slots : Slots α) (number : Nat) : Slots α where
  members := slots.members.filter (·.1 != number)
  vacant := if number ∈ slots.numbers then number :: slots.vacant else slots.vacant
  opened := slots.opened
  split := by
    have kept : (slots.members.filter (·.1 != number)).map (·.1) = slots.numbers.erase number := by
      rw [slots.nodup.erase_eq_filter, numbers, List.filter_map]
      rfl
    rw [kept]
    split_ifs with taken
    · refine List.Perm.trans ?_ slots.split
      exact List.perm_middle.symm.trans ((List.perm_cons_erase taken).symm.append_left _)
    · rw [List.erase_of_not_mem taken]
      exact slots.split

@[simp] theorem members_add (slots : Slots α) (member : α) :
    (slots.add member).members = (slots.next, member) :: slots.members := rfl

@[simp] theorem members_remove (slots : Slots α) (number : Nat) :
    (slots.remove number).members = slots.members.filter (·.1 != number) := rfl

/-- A member that comes right after a removal takes the vacated number. -/
theorem members_exchange (slots : Slots α) {number : Nat} (taken : number ∈ slots.numbers)
    (member : α) :
    ((slots.remove number).add member).members =
      (number, member) :: slots.members.filter (·.1 != number) := by
  rw [members_add, members_remove, next, remove]
  simp only [if_pos taken, List.headD_cons]

example : (((Slots.empty.add "first").add "second").remove 0 |>.add "third").members =
    [(0, "third"), (1, "second")] := by
  decide

/-- A number has one member. -/
theorem eq_of_number (slots : Slots α) {number : Nat} {left right : α}
    (leftMember : (number, left) ∈ slots.members) (rightMember : (number, right) ∈ slots.members) :
    left = right :=
  (Prod.mk.inj (List.inj_on_of_nodup_map slots.nodup leftMember rightMember rfl)).2

theorem mem_numbers {slots : Slots α} {number : Nat} :
    number ∈ slots.numbers ↔ ∃ member, (number, member) ∈ slots.members := by
  simp [numbers]

/-- The member with a number. -/
def get? (slots : Slots α) (number : Nat) : Option α :=
  (slots.members.find? (·.1 == number)).map (·.2)

theorem get?_eq_some_iff {slots : Slots α} {number : Nat} {member : α} :
    slots.get? number = some member ↔ (number, member) ∈ slots.members := by
  rw [get?, Option.map_eq_some_iff]
  constructor
  · rintro ⟨⟨other, _⟩, found, rfl⟩
    obtain rfl : other = number := by simpa using List.find?_some found
    exact List.mem_of_find?_eq_some found
  · intro listed
    cases found : slots.members.find? (·.1 == number) with
    | none => simpa using List.find?_eq_none.mp found _ listed
    | some entry =>
        rcases entry with ⟨other, content⟩
        obtain rfl : other = number := by simpa using List.find?_some found
        exact ⟨_, rfl, slots.eq_of_number (List.mem_of_find?_eq_some found) listed⟩

theorem get?_eq_none_iff {slots : Slots α} {number : Nat} :
    slots.get? number = none ↔ number ∉ slots.numbers := by
  rw [mem_numbers, Option.eq_none_iff_forall_ne_some]
  simp only [ne_eq, get?_eq_some_iff, not_exists]

/-- Adds several members, one after the other. -/
def addAll (slots : Slots α) (members : List α) : Slots α := members.foldl add slots

/-- Removes the members with some numbers, one after the other. -/
def removeAll (slots : Slots α) (numbers : List Nat) : Slots α := numbers.foldl remove slots

/-- Added members come before the others, the one that came last first. -/
theorem members_addAll (slots : Slots α) (members : List α) :
    ∃ new, (slots.addAll members).members = new ++ slots.members ∧
      new.map (·.2) = members.reverse := by
  induction members generalizing slots with
  | nil => exact ⟨[], rfl, rfl⟩
  | cons member rest ih =>
      obtain ⟨new, later, contents⟩ := ih (slots.add member)
      refine ⟨new ++ [(slots.next, member)], ?_, ?_⟩
      · rw [List.append_assoc, List.singleton_append, ← members_add, ← later]
        rfl
      · rw [List.map_append, contents, List.reverse_cons]
        rfl

theorem members_removeAll (slots : Slots α) (numbers : List Nat) :
    (slots.removeAll numbers).members = slots.members.filter (·.1 ∉ numbers) := by
  induction numbers generalizing slots with
  | nil => simp [removeAll]
  | cons number rest ih =>
      rw [removeAll, List.foldl_cons]
      refine (ih _).trans ?_
      rw [members_remove, List.filter_filter]
      apply List.filter_congr
      intro member _
      rw [Bool.eq_iff_iff]
      simp [and_comm]

end Slots

end QueryPlan
