import Mathlib.Data.List.Forall2
import Mathlib.Data.List.Nodup
import QueryPlan.Node.Outline
import QueryPlan.Proofs.Equality.Form
import QueryPlan.Proofs.Plan.Matching
import QueryPlan.Proofs.Run.Confluence
import QueryPlan.Proofs.Text.Words

/-!
# Reading the outline of a plan

A plan unrolled into a tree has a position for every path that leads from the
root to a node (`PlanNode.positions`, in pre-order). The outline has a line for
every position, which shows the length of the path by its indentation: display
texts of operators do not begin with a blank. The lines of the inputs of a node
end where a line is no deeper than that of the node, so the outline is read from
the top, and tells the tree.
-/

namespace QueryPlan

/-- The display text of an operator begins with a letter. -/
theorem Operator.stops_text (operator : Operator) : Stops (· == ' ') operator.text.toList := by
  have begins : ∃ letter, letter ≠ ' ' ∧ ∃ rest, operator.text.toList = letter :: rest := by
    cases operator with
    | aggregate grouping =>
        exact ⟨'A', by decide, begins_append (begins_append (begins_append (begins_append ⟨_, rfl⟩ _) _) _) _⟩
    | projection exprs names =>
        exact ⟨'P', by decide, begins_append (begins_append (begins_append (begins_append ⟨_, rfl⟩ _) _) _) _⟩
    | join kind condition =>
        exact ⟨'J', by decide, begins_append (begins_append (begins_append (begins_append ⟨_, rfl⟩ _) _) _) _⟩
    | tableScan table fields => exact ⟨'T', by decide, begins_append (begins_append ⟨_, rfl⟩ _) _⟩
    | filter predicate => exact ⟨'F', by decide, begins_append (begins_append ⟨_, rfl⟩ _) _⟩
    | limit count => exact ⟨'L', by decide, begins_append (begins_append ⟨_, rfl⟩ _) _⟩
  obtain ⟨letter, apart, rest, equal⟩ := begins
  rw [equal]
  exact stops_cons.mpr (beq_false_of_ne apart)

namespace PlanNode

/-- A line of an outline tells its depth and its text. -/
theorem outlineLine_inj {depth otherDepth : Nat} {operator other : Operator}
    (same : outlineLine depth operator.text = outlineLine otherDepth other.text) :
    depth = otherDepth ∧ operator.text = other.text := by
  have lines := congrArg String.toList same
  simp only [outlineLine, String.toList_append, String.toList_ofList] at lines
  have blank (count : Nat) : ∀ c ∈ List.replicate count ' ', (c == ' ') = true := by
    intro c member
    rw [List.eq_of_mem_replicate member]
    rfl
  obtain ⟨blanks, texts⟩ := eq_of_append_eq (blank _) (blank _) operator.stops_text
    other.stops_text lines
  have counts := congrArg List.length blanks
  simp only [List.length_replicate] at counts
  exact ⟨by omega, String.toList_injective texts⟩

section Positions

mutual
/-- The positions of a plan unrolled into a tree, in pre-order: the path from the
root to each of them, and the node that stands there. -/
def positions : PlanNode → List (List Nat × PlanNode)
  | ⟨key, id, operator, inputs, schema⟩ =>
    ([], ⟨key, id, operator, inputs, schema⟩) :: positionsAll 0 inputs

/-- The positions below a node whose inputs from `index` on are given. -/
def positionsAll (index : Nat) : List PlanNode → List (List Nat × PlanNode)
  | [] => []
  | node :: rest =>
    (positions node).map (fun position => (index :: position.1, position.2)) ++
      positionsAll (index + 1) rest
end

theorem positions_eq (node : PlanNode) :
    node.positions = ([], node) :: positionsAll 0 node.inputs := by
  cases node
  simp only [positions]

mutual
/-- A position is a path that leads to a node. -/
theorem mem_positions {plan node : PlanNode} {path : List Nat} :
    (path, node) ∈ plan.positions ↔ plan.descend? path = some node := by
  match plan with
  | ⟨key, id, operator, inputs, schema⟩ =>
      rw [positions, List.mem_cons]
      cases path with
      | nil => simp [descend?, mem_positionsAll, eq_comm]
      | cons index path =>
          rw [mem_positionsAll, descend?, Option.bind_eq_some_iff]
          constructor
          · rintro (root | ⟨place, later, equal, below⟩)
            · simp at root
            · obtain ⟨rfl, rfl⟩ := List.cons.inj equal
              rwa [Nat.zero_add]
          · exact fun below => .inr ⟨index, path, by rw [Nat.zero_add], below⟩

theorem mem_positionsAll {nodes : List PlanNode} {node : PlanNode} {path : List Nat} {index : Nat} :
    (path, node) ∈ positionsAll index nodes ↔
      ∃ place later, path = (index + place) :: later ∧
        ∃ input, nodes[place]? = some input ∧ input.descend? later = some node := by
  match nodes with
  | [] => simp [positionsAll]
  | first :: rest =>
      rw [positionsAll, List.mem_append, mem_positionsAll]
      constructor
      · rintro (inFirst | ⟨place, later, rfl, inRest⟩)
        · obtain ⟨⟨later, _⟩, inside, equal⟩ := List.mem_map.mp inFirst
          obtain ⟨rfl, rfl⟩ := Prod.mk.inj equal
          exact ⟨0, later, rfl, first, rfl, mem_positions.mp inside⟩
        · refine ⟨place + 1, later, ?_, inRest⟩
          rw [Nat.add_assoc, Nat.add_comm 1]
      · rintro ⟨_ | place, later, rfl, input, found, reached⟩
        · obtain rfl := Option.some.inj found
          exact .inl (List.mem_map.mpr ⟨(later, node), mem_positions.mpr reached, rfl⟩)
        · refine .inr ⟨place, later, ?_, input, found, reached⟩
          rw [Nat.add_assoc, Nat.add_comm 1]
end

mutual
/-- Every path is the path of one position only. -/
theorem nodup_positions (plan : PlanNode) : (plan.positions.map (·.1)).Nodup := by
  match plan with
  | ⟨key, id, operator, inputs, schema⟩ =>
      rw [positions, List.map_cons, List.nodup_cons]
      refine ⟨?_, nodup_positionsAll 0 inputs⟩
      intro again
      obtain ⟨⟨path, node⟩, member, equal⟩ := List.mem_map.mp again
      obtain ⟨place, later, shape, _⟩ := mem_positionsAll.mp member
      exact List.cons_ne_nil _ _ (shape.symm.trans equal)

theorem nodup_positionsAll (index : Nat) (nodes : List PlanNode) :
    ((positionsAll index nodes).map (·.1)).Nodup := by
  match nodes with
  | [] => exact .nil
  | node :: rest =>
      have first := List.Nodup.map (f := (index :: ·))
        (fun _ _ same => (List.cons.inj same).2) (nodup_positions node)
      rw [positionsAll, List.map_append, List.map_map]
      rw [List.map_map] at first
      refine List.Nodup.append first (nodup_positionsAll (index + 1) rest) ?_
      intro path inFirst inRest
      obtain ⟨position, _, rfl⟩ := List.mem_map.mp inFirst
      obtain ⟨⟨path, below⟩, member, equal⟩ := List.mem_map.mp inRest
      obtain ⟨place, later, shape, _⟩ := mem_positionsAll.mp member
      have first : index + 1 + place = index := (List.cons.inj (shape.symm.trans equal)).1
      omega
end

/-- What a list of positions shows of each of them, from a depth on. -/
def entries (depth : Nat) (plan : PlanNode) : List (Nat × String) :=
  plan.positions.map fun position => (depth + position.1.length, position.2.operator.text)

theorem map_positionsAll (depth index : Nat) (nodes : List PlanNode) :
    (positionsAll index nodes).map
        (fun position => (depth + position.1.length, position.2.operator.text)) =
      nodes.flatMap (entries (depth + 1)) := by
  induction nodes generalizing index with
  | nil => rfl
  | cons node rest ih =>
      rw [positionsAll, List.map_append, ih, List.map_map, List.flatMap_cons, entries]
      congr 1
      apply List.map_congr_left
      intro position _
      simp only [Function.comp_apply, List.length_cons]
      rw [Nat.add_assoc, Nat.add_comm 1]

theorem entries_eq (depth : Nat) (plan : PlanNode) :
    plan.entries depth = (depth, plan.operator.text) :: plan.inputs.flatMap (entries (depth + 1)) := by
  rw [entries, positions_eq, List.map_cons, map_positionsAll]
  rfl

/-- The outline has a line for every position. -/
theorem outline_eq_map_entries (depth : Nat) (plan : PlanNode) :
    plan.outline depth = (plan.entries depth).map fun entry => outlineLine entry.1 entry.2 := by
  induction plan using PlanNode.induct generalizing depth with
  | node key id operator inputs schema ih =>
      rw [outline, outlineAll_eq_flatMap, entries_eq, List.map_cons, List.map_flatMap]
      congr 1
      rw [List.flatMap_def, List.flatMap_def]
      congr 1
      exact List.map_congr_left fun input member => ih input member (depth + 1)

end Positions

section Reading

/-- Whether plans unrolled into trees have the same positions, and the same display
text at each of them. -/
def SameOutline (left right : PlanNode) : Prop :=
  ∀ path, (left.descend? path).map (·.operator.text) = (right.descend? path).map (·.operator.text)

theorem descend?_singleton (node : PlanNode) (index : Nat) :
    node.descend? [index] = node.inputs[index]? :=
  Option.bind_fun_some _

theorem sameOutline_iff {left right : PlanNode} :
    SameOutline left right ↔
      left.operator.text = right.operator.text ∧
        List.Forall₂ SameOutline left.inputs right.inputs := by
  constructor
  · intro same
    refine ⟨Option.some.inj (same []), List.forall₂_iff_get.mpr ⟨?_, ?_⟩⟩
    · -- An input of one of them is matched by an input of the other one.
      have beyond (index : Nat) :
          left.inputs.length ≤ index ↔ right.inputs.length ≤ index := by
        have here := same [index]
        rw [descend?_singleton, descend?_singleton] at here
        rw [← List.getElem?_eq_none_iff, ← List.getElem?_eq_none_iff, ← Option.map_eq_none_iff, here,
          Option.map_eq_none_iff]
      exact Nat.le_antisymm ((beyond _).mpr (Nat.le_refl _)) ((beyond _).mp (Nat.le_refl _))
    · intro index leftBound rightBound path
      have below := same (index :: path)
      rw [descend?, descend?, List.getElem?_eq_getElem leftBound,
        List.getElem?_eq_getElem rightBound] at below
      exact below
  · rintro ⟨texts, inputs⟩ path
    obtain ⟨lengths, each⟩ := List.forall₂_iff_get.mp inputs
    cases path with
    | nil => exact congrArg some texts
    | cons index path =>
        rw [descend?, descend?]
        by_cases bound : index < left.inputs.length
        · have otherBound : index < right.inputs.length := lengths ▸ bound
          rw [List.getElem?_eq_getElem bound, List.getElem?_eq_getElem otherBound]
          exact each index bound otherBound path
        · rw [List.getElem?_eq_none (Nat.not_lt.mp bound),
            List.getElem?_eq_none (lengths ▸ Nat.not_lt.mp bound)]

/-- The entries of what lies below a depth end with the first one that does not. -/
abbrev StopsAt (depth : Nat) (rest : List (Nat × String)) : Prop :=
  Stops (fun entry : Nat × String => decide (depth < entry.1)) rest

theorem StopsAt.deeper {depth : Nat} {rest : List (Nat × String)} (stops : StopsAt depth rest) :
    StopsAt (depth + 1) rest := by
  intro entry isNext
  have here := stops entry isNext
  rw [decide_eq_false_iff_not] at here ⊢
  omega

/-- The entries of several nodes at a depth end one after the other. -/
theorem stopsAt_flatMap_entries (depth : Nat) (nodes : List PlanNode)
    {rest : List (Nat × String)} (stops : StopsAt depth rest) :
    StopsAt depth (nodes.flatMap (entries depth) ++ rest) := by
  cases nodes with
  | nil => exact stops
  | cons node nodes =>
      rw [List.flatMap_cons, entries_eq]
      exact stops_cons.mpr (decide_eq_false (Nat.lt_irrefl depth))

/-- Whether a plan is known from entries that begin with its own, and their end with
it. -/
def Recognizable (left : PlanNode) : Prop :=
  ∀ (right : PlanNode) (depth : Nat) (rest other : List (Nat × String)), StopsAt depth rest →
    StopsAt depth other → left.entries depth ++ rest = right.entries depth ++ other →
    SameOutline left right ∧ rest = other

/-- The inputs of a node are recognized one after the other. -/
theorem inputs_of_append_eq {lefts rights : List PlanNode}
    (recognizable : ∀ left ∈ lefts, Recognizable left) {depth : Nat}
    {rest other : List (Nat × String)} (restStops : StopsAt depth rest)
    (otherStops : StopsAt depth other)
    (same : lefts.flatMap (entries (depth + 1)) ++ rest =
      rights.flatMap (entries (depth + 1)) ++ other) :
    List.Forall₂ SameOutline lefts rights ∧ rest = other := by
  induction lefts generalizing rights with
  | nil =>
      cases rights with
      | nil => exact ⟨.nil, same⟩
      | cons right rights =>
          rw [List.flatMap_cons, entries_eq] at same
          obtain rfl : rest = _ := same
          have deeper := stops_cons.mp restStops
          simp at deeper
  | cons left lefts ih =>
      cases rights with
      | nil =>
          rw [List.flatMap_cons, entries_eq] at same
          obtain rfl : _ = other := same
          have deeper := stops_cons.mp otherStops
          simp at deeper
      | cons right rights =>
          obtain ⟨first, others⟩ := List.forall_mem_cons.mp recognizable
          rw [List.flatMap_cons, List.flatMap_cons, List.append_assoc, List.append_assoc] at same
          obtain ⟨here, later⟩ := first right (depth + 1) _ _
            (stopsAt_flatMap_entries _ _ restStops.deeper)
            (stopsAt_flatMap_entries _ _ otherStops.deeper) same
          obtain ⟨inputs, rests⟩ := ih others later
          exact ⟨.cons here inputs, rests⟩

theorem recognizable (plan : PlanNode) : Recognizable plan := by
  induction plan using PlanNode.induct with
  | node key id operator inputs schema ih =>
      intro right depth rest other restStops otherStops same
      rw [entries_eq, entries_eq depth right] at same
      obtain ⟨first, below⟩ := List.cons.inj same
      obtain ⟨alike, rests⟩ := inputs_of_append_eq ih restStops otherStops below
      exact ⟨sameOutline_iff.mpr ⟨(Prod.mk.inj first).2, alike⟩, rests⟩

theorem flatMap_entries_of_sameOutline {lefts rights : List PlanNode} {depth : Nat}
    (members : ∀ left ∈ lefts, ∀ right, SameOutline left right →
      left.entries depth = right.entries depth)
    (alike : List.Forall₂ SameOutline lefts rights) :
    lefts.flatMap (entries depth) = rights.flatMap (entries depth) := by
  induction alike with
  | nil => rfl
  | cons here _ ih =>
      obtain ⟨first, others⟩ := List.forall_mem_cons.mp members
      rw [List.flatMap_cons, List.flatMap_cons, first _ here, ih others]

/-- Plans with the same positions and texts have the same entries. -/
theorem entries_of_sameOutline {left right : PlanNode} (same : SameOutline left right)
    (depth : Nat) : left.entries depth = right.entries depth := by
  induction left using PlanNode.induct generalizing right depth with
  | node key id operator inputs schema ih =>
      obtain ⟨texts, alike⟩ := sameOutline_iff.mp same
      have below : inputs.flatMap (entries (depth + 1)) =
          right.inputs.flatMap (entries (depth + 1)) :=
        flatMap_entries_of_sameOutline
          (fun input member other same => ih input member same (depth + 1)) alike
      rw [entries_eq, entries_eq depth right, below, ← texts]

/-- The outlines of two plans are equal exactly when the plans have the same positions
and texts. -/
theorem outline_eq_iff {left right : PlanNode} :
    left.outline 0 = right.outline 0 ↔ SameOutline left right := by
  constructor
  · intro same
    rw [outline_eq_map_entries, outline_eq_map_entries, entries, entries, List.map_map,
      List.map_map] at same
    have entriesSame : left.entries 0 = right.entries 0 := by
      refine map_eq_map_of_members ?_ same
      intro position _ other lines
      obtain ⟨depths, texts⟩ := outlineLine_inj lines
      exact Prod.ext depths texts
    have atEnd : StopsAt 0 [] := nofun
    exact (recognizable left right 0 [] [] atEnd atEnd (congrArg (· ++ []) entriesSame)).1
  · intro same
    rw [outline_eq_map_entries, outline_eq_map_entries, entries_of_sameOutline same]

end Reading

section Lines

/-- Whether no operator of a plan has a line feed in its display text. -/
def Unbroken (plan : PlanNode) : Prop :=
  ∀ node, Occurs node plan → '\n' ∉ node.operator.text.toList

/-- What a path leads to occurs in the plan. -/
theorem occurs_of_descend? {plan node : PlanNode} {path : List Nat}
    (reached : plan.descend? path = some node) : Occurs node plan := by
  induction path generalizing plan with
  | nil =>
      obtain rfl := Option.some.inj reached
      exact .here
  | cons index path ih =>
      obtain ⟨input, found, below⟩ := Option.bind_eq_some_iff.mp reached
      exact .under (List.mem_of_getElem? found) (ih below)

/-- The lines of the text are those of the outline. -/
theorem splitOn_text {plan : PlanNode} (unbroken : plan.Unbroken) :
    plan.text.toList.splitOn '\n' = (plan.outline 0).map String.toList ++ [[]] := by
  have whole : ∀ line ∈ (plan.outline 0).map String.toList, '\n' ∉ line := by
    intro line member feed
    rw [outline_eq_map_entries, entries, List.map_map, List.map_map] at member
    obtain ⟨position, listed, rfl⟩ := List.mem_map.mp member
    simp only [Function.comp_apply, outlineLine, String.toList_append, String.toList_ofList,
      List.mem_append, List.mem_replicate] at feed
    rcases feed with blank | inText
    · exact absurd blank.2 (by decide)
    · exact unbroken _ (occurs_of_descend? (mem_positions.mp listed)) inText
  rw [← splitOn_flatMap_ended whole, text, String.toList_join, List.flatMap_map, List.flatMap_map]
  simp only [String.toList_append]
  rfl

end Lines

/-- The text of a plan has exactly one line for every position of the plan unrolled
into a tree, in pre-order, which shows the depth of the position and the display
text of the operator there. Texts of two plans are equal exactly when the plans
have the same positions and the same display text at each of them. -/
theorem text_exact {left right : PlanNode} (leftUnbroken : left.Unbroken)
    (rightUnbroken : right.Unbroken) :
    (left.text = right.text ↔
      ∀ path, (left.descend? path).map (·.operator.text) =
        (right.descend? path).map (·.operator.text)) ∧
    left.text.toList.splitOn '\n' =
      left.positions.map (fun position =>
        (outlineLine position.1.length position.2.operator.text).toList) ++ [[]] ∧
    (left.positions.map (·.1)).Nodup ∧
    ∀ path node, (path, node) ∈ left.positions ↔ left.descend? path = some node := by
  refine ⟨⟨?_, ?_⟩, ?_, left.nodup_positions, fun path node => mem_positions⟩
  · intro same
    have lines : (left.outline 0).map String.toList ++ [[]] =
        (right.outline 0).map String.toList ++ [[]] := by
      rw [← splitOn_text leftUnbroken, ← splitOn_text rightUnbroken, same]
    exact outline_eq_iff.mp
      (List.map_injective_iff.mpr (fun _ _ => String.toList_injective) (List.append_cancel_right lines))
  · intro same
    rw [text, text, outline_eq_iff.mpr same]
  · rw [splitOn_text leftUnbroken, outline_eq_map_entries, entries, List.map_map, List.map_map]
    simp only [Function.comp_def, Nat.zero_add]

/-- `text_exact` for a plan that reads an aggregate twice and for one that reads two
aggregates. -/
theorem text_exact_pairs :
    Sample.pairs.text = Sample.pairsApart.text ∧ Sample.pairs.text ≠ Sample.customers.text ∧
      (Sample.pairs.text.toList.splitOn '\n').length = 6 := by
  have pairsUnbroken : Sample.pairs.Unbroken := by
    intro node occurs
    have listed := Sample.occurs_pairs.mp occurs
    simp only [List.mem_cons, List.not_mem_nil, or_false] at listed
    rcases listed with rfl | rfl | rfl <;> decide
  have apartUnbroken : Sample.pairsApart.Unbroken := by
    intro node occurs
    have listed := Sample.occurs_pairsApart.mp occurs
    simp only [List.mem_cons, List.not_mem_nil, or_false] at listed
    rcases listed with rfl | rfl | rfl | rfl <;> decide
  have customersUnbroken : Sample.customers.Unbroken :=
    fun node occurs => pairsUnbroken node (occurs.trans (.input List.mem_cons_self))
  have inputs : SameOutline Sample.customers Sample.customersAgain :=
    sameOutline_iff.mpr ⟨rfl, .cons (fun _ => rfl) .nil⟩
  have alike : SameOutline Sample.pairs Sample.pairsApart :=
    sameOutline_iff.mpr ⟨rfl, .cons (fun _ => rfl) (.cons inputs .nil)⟩
  obtain ⟨_, lines, _⟩ := text_exact pairsUnbroken apartUnbroken
  refine ⟨(text_exact pairsUnbroken apartUnbroken).1.mpr alike, ?_, ?_⟩
  · intro same
    have root := (text_exact pairsUnbroken customersUnbroken).1.mp same []
    exact absurd (Option.some.inj root) (by decide)
  · rw [lines, List.length_append, List.length_map]
    rfl

end PlanNode

end QueryPlan
