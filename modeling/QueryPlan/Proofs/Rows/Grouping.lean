import QueryPlan.Proofs.Rows.Evaluation

/-!
# Groups, distinct rows and joins

Grouping the distinct rows of some columns gives the groups of all rows, if the
columns start with the group columns. A group of distinct rows holds the
distinct rows of the group, and these match the distinct argument tuples one to
one. Joining two lists that hold one row per key by equality of the keys puts
the rows of each key together.
-/

namespace QueryPlan

open FirstOccurrence

namespace Row

/-- Rows agree on some columns when they agree on each of them. -/
theorem columns_beq_iff {left right : Row} {indices : List Nat} :
    (left.columns indices == right.columns indices) = true ↔
      ∀ index ∈ indices, (left.column index == right.column index) = true := by
  induction indices with
  | nil => simp [columns]
  | cons index rest ih =>
      simp only [columns, List.map_cons, List.cons_beq_cons, Bool.and_eq_true,
        List.forall_mem_cons] at ih ⊢
      rw [ih]

theorem take_respectful (count : Nat) : Respectful fun row : Row => row.take count := by
  intro left right equal
  rw [list_beq_iff_map Value.beq_iff] at equal ⊢
  rw [List.map_take, List.map_take, equal]

/-- Columns that were kept are found again where they were put. -/
theorem columns_columns (row : Row) {kept indices : List Nat}
    (found : ∀ index ∈ indices, kept[kept.idxOf index]? = some index) :
    (row.columns kept).columns (indices.map kept.idxOf) = row.columns indices := by
  simp only [columns]
  rw [List.map_map]
  apply List.map_congr_left
  intro index member
  simp [column, found index member]

/-- Rows of one width are equal when they are equal in every column. -/
theorem beq_iff_columns {left right : Row} {width : Nat} (leftWidth : left.length = width)
    (rightWidth : right.length = width) :
    (left == right) = true ↔
      ∀ index, index < width → (left.column index == right.column index) = true := by
  have leftColumns : left.columns (List.range width) = left := by
    rw [columns_range (Nat.le_of_eq leftWidth.symm), ← leftWidth, List.take_length]
  have rightColumns : right.columns (List.range width) = right := by
    rw [columns_range (Nat.le_of_eq rightWidth.symm), ← rightWidth, List.take_length]
  have agreement := @columns_beq_iff left right (List.range width)
  rw [leftColumns, rightColumns] at agreement
  rw [agreement]
  simp only [List.mem_range]

end Row

section Groups

variable {groupCount : Nat} {rows : List Row}

/-- A group key has a value for each group column. -/
theorem length_of_mem_groupKeys (wide : ∀ row ∈ rows, groupCount ≤ row.length) {key : Row}
    (member : key ∈ groupKeys groupCount rows) : key.length = groupCount := by
  rw [groupKeys] at member
  split at member
  · rename_i none
    rcases List.mem_singleton.mp member with rfl
    exact none.symm
  · rcases List.mem_map.mp ((eraseDups_sublist _).subset member) with ⟨row, present, rfl⟩
    rw [List.length_take, Nat.min_eq_left (wide row present)]

/-- No two group keys are equal. -/
theorem groupKeys_pairwise (groupCount : Nat) (rows : List Row) :
    (groupKeys groupCount rows).Pairwise fun left right => (left == right) = false := by
  rw [groupKeys]
  split
  · exact List.pairwise_singleton _ _
  · exact eraseDups_pairwise _

/-- The distinct rows of some columns. -/
def distinctRows (ordinals : List Nat) (rows : List Row) : List Row :=
  (rows.map (·.columns ordinals)).eraseDups

/-- Grouping by all columns leaves the distinct rows. -/
theorem groupKeys_columns {ordinals : List Nat} (nonempty : ordinals ≠ []) (rows : List Row) :
    groupKeys ordinals.length (rows.map (·.columns ordinals)) = distinctRows ordinals rows := by
  have positive : ordinals.length ≠ 0 := fun zero => nonempty (List.length_eq_zero_iff.mp zero)
  rw [groupKeys, if_neg positive, List.map_map, distinctRows]
  congr 1
  apply List.map_congr_left
  intro row _
  simp [Row.columns, List.take_of_length_le]

variable {ordinals : List Nat}

/-- The group columns of the distinct rows are those of the rows. -/
theorem take_columns (front : ordinals.take groupCount = List.range groupCount) {row : Row}
    (wide : groupCount ≤ row.length) :
    (row.columns ordinals).take groupCount = row.take groupCount := by
  rw [Row.columns, ← List.map_take, front]
  exact Row.columns_range wide

theorem groupKeys_distinctRows (front : ordinals.take groupCount = List.range groupCount)
    (wide : ∀ row ∈ rows, groupCount ≤ row.length) :
    groupKeys groupCount (distinctRows ordinals rows) = groupKeys groupCount rows := by
  simp only [groupKeys, distinctRows]
  rw [eraseDups_map_eraseDups (Row.take_respectful groupCount), List.map_map]
  split
  · rfl
  · congr 1
    apply List.map_congr_left
    intro row present
    exact take_columns front (wide row present)

theorem groupOf_distinctRows (front : ordinals.take groupCount = List.range groupCount)
    (wide : ∀ row ∈ rows, groupCount ≤ row.length) (key : Row) :
    groupOf groupCount (distinctRows ordinals rows) key =
      distinctRows ordinals (groupOf groupCount rows key) := by
  have respected : RespectedBy fun row : Row => key == row.take groupCount := by
    intro left right equal
    exact BEq.congr_right (Row.take_respectful groupCount left right equal)
  rw [groupOf, distinctRows]
  rw [filter_eraseDups _ respected, List.filter_map]
  congr 2
  apply List.filter_congr
  intro row present
  simp only [Function.comp_apply]
  rw [take_columns front (wide row present)]

/-- Rows of one group agree on the selected columns when they agree on the
arguments, which are the other selected columns. -/
theorem columns_beq_in_group (wide : ∀ row ∈ rows, groupCount ≤ row.length) {args : List Nat}
    (selected : ∀ ordinal, ordinal ∈ ordinals ↔ ordinal < groupCount ∨ ordinal ∈ args) {key : Row}
    {left right : Row} (leftMember : left ∈ groupOf groupCount rows key)
    (rightMember : right ∈ groupOf groupCount rows key) :
    (left.columns args == right.columns args) =
      (left.columns ordinals == right.columns ordinals) := by
  rcases List.mem_filter.mp leftMember with ⟨leftPresent, leftKey⟩
  rcases List.mem_filter.mp rightMember with ⟨rightPresent, rightKey⟩
  have sameKey : (left.take groupCount == right.take groupCount) = true :=
    BEq.trans (BEq.symm leftKey) rightKey
  rw [← Row.columns_range (wide left leftPresent), ← Row.columns_range (wide right rightPresent),
    Row.columns_beq_iff] at sameKey
  rw [Bool.eq_iff_iff, Row.columns_beq_iff, Row.columns_beq_iff]
  constructor
  · intro agree ordinal member
    rcases (selected ordinal).mp member with group | argument
    · exact sameKey ordinal (List.mem_range.mpr group)
    · exact agree ordinal argument
  · intro agree arg member
    exact agree arg ((selected arg).mpr (.inr member))

end Groups

/-- Two lists with one row per key, joined by equality of the keys. -/
theorem innerJoin_diagonal {condition : Expr} {keys : List Row}
    (apart : keys.Pairwise fun left right => (left == right) = false) {left right : Row → Row}
    (compares : ∀ leftKey ∈ keys, ∀ rightKey ∈ keys,
      condition.holds (left leftKey ++ right rightKey) = (leftKey == rightKey)) :
    innerJoin condition (keys.map left) (keys.map right) =
      keys.map fun key => left key ++ right key := by
  have single : ∀ key ∈ keys,
      ((keys.map right).map (left key ++ ·)).filter condition.holds =
        [left key ++ right key] := by
    intro key member
    have tests : keys.filter (condition.holds ∘ (left key ++ ·) ∘ right) =
        keys.filter (key == ·) := by
      apply List.filter_congr
      intro other present
      exact compares key member other present
    rw [List.map_map, List.filter_map, tests, filter_beq_eq_singleton apart member]
    rfl
  rw [innerJoin]
  rw [List.flatMap_map, List.flatMap_def, List.map_congr_left single, ← List.flatMap_def]
  exact List.map_eq_flatMap.symm

end QueryPlan
