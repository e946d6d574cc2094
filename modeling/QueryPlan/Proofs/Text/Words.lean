/-!
# Words in a text

A text that is written from left to right can be read again where every word
shows its end: the characters of the word pass a test that the first character
after it fails.
-/

namespace QueryPlan

variable {α : Type} {passes : α → Bool}

/-- Whether a text is at its end or goes on with a member that fails the test. -/
def Stops (passes : α → Bool) (rest : List α) : Prop := ∀ next ∈ rest.head?, passes next = false

theorem stops_cons {next : α} {rest : List α} :
    Stops passes (next :: rest) ↔ passes next = false := by
  simp [Stops]

/-- What is written behind a text does not change its first character. -/
theorem begins_append {first : Char} {word : String} (begins : ∃ rest, word.toList = first :: rest)
    (more : String) : ∃ rest, (word ++ more).toList = first :: rest := by
  obtain ⟨rest, equal⟩ := begins
  exact ⟨rest ++ more.toList, by rw [String.toList_append, equal, List.cons_append]⟩

/-- Words up to the first member that fails the test are the same when the texts
that begin with them are, and so are the rests of these texts. -/
theorem eq_of_append_eq {left right rest other : List α} (leftPasses : ∀ c ∈ left, passes c = true)
    (rightPasses : ∀ c ∈ right, passes c = true) (restStops : Stops passes rest)
    (otherStops : Stops passes other) (same : left ++ rest = right ++ other) :
    left = right ∧ rest = other := by
  induction left generalizing right with
  | nil =>
      cases right with
      | nil => exact ⟨rfl, same⟩
      | cons first right =>
          obtain rfl : rest = first :: (right ++ other) := same
          have fails := stops_cons.mp restStops
          rw [rightPasses first List.mem_cons_self] at fails
          exact nomatch fails
  | cons first left ih =>
      cases right with
      | nil =>
          obtain rfl : first :: (left ++ rest) = other := same
          have fails := stops_cons.mp otherStops
          rw [leftPasses first List.mem_cons_self] at fails
          exact nomatch fails
      | cons second right =>
          obtain ⟨rfl, later⟩ := List.cons.inj same
          obtain ⟨rfl, rests⟩ := ih (fun c member => leftPasses c (List.mem_cons_of_mem _ member))
            (fun c member => rightPasses c (List.mem_cons_of_mem _ member)) later
          exact ⟨rfl, rests⟩

/-- Lines that are each ended by a separator are found again between the separators,
and nothing is left behind the last one. -/
theorem splitOn_flatMap_ended [BEq α] [LawfulBEq α] {separator : α} {lines : List (List α)}
    (whole : ∀ line ∈ lines, separator ∉ line) :
    (lines.flatMap (· ++ [separator])).splitOn separator = lines ++ [[]] := by
  induction lines with
  | nil => rfl
  | cons line lines ih =>
      obtain ⟨first, others⟩ := List.forall_mem_cons.mp whole
      have apart : ∀ c ∈ line, (c == separator) = false := by
        intro c member
        rw [beq_eq_false_iff_ne]
        rintro rfl
        exact first member
      have rest := ih others
      rw [List.splitOn_eq_splitOnP] at rest ⊢
      rw [List.flatMap_cons, List.append_assoc, List.singleton_append,
        List.splitOnP_append_cons_of_forall_mem apart separator BEq.rfl, rest, List.cons_append]

end QueryPlan
