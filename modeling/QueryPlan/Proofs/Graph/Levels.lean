import QueryPlan.Proofs.Graph.Search
import QueryPlan.Proofs.Plan.Guarding

/-!
# Levels of the breadth-first search

The search goes through the vertices in the order of their distances from the
root, whatever the age of the edges. Its queue holds vertices of one level and,
behind them, vertices of the next one (`Frontier`). Vertices of a level may come
in any order, and a vertex may come before one that reads it when a shorter way
leads to it.
-/

namespace QueryPlan

open PlanNode

/-- Whether a chain of so many reads leads from one id to another one. -/
inductive ReachesIn (vertices : List Vertex) (start : Nat) : Nat → Nat → Prop
  | refl : ReachesIn vertices start 0 start
  | tail {steps middle id : Nat} :
      ReachesIn vertices start steps middle → Reads vertices middle id →
      ReachesIn vertices start (steps + 1) id

namespace ReachesIn

variable {vertices : List Vertex} {start id : Nat}

@[simp] theorem zero_iff : ReachesIn vertices start 0 id ↔ id = start := by
  constructor
  · intro reaches
    cases reaches
    rfl
  · rintro rfl
    exact .refl

theorem succ_iff {steps : Nat} :
    ReachesIn vertices start (steps + 1) id ↔
      ∃ reader ∈ vertices, ReachesIn vertices start steps reader.id ∧ id ∈ reader.inputs := by
  constructor
  · intro reaches
    rcases reaches with _ | ⟨before, reader, present, rfl, isInput⟩
    exact ⟨reader, present, before, isInput⟩
  · rintro ⟨reader, present, before, isInput⟩
    exact before.tail ⟨reader, present, rfl, isInput⟩

theorem head {steps middle : Nat} (reads : Reads vertices start middle)
    (reaches : ReachesIn vertices middle steps id) : ReachesIn vertices start (steps + 1) id := by
  induction reaches with
  | refl => exact .tail .refl reads
  | tail _ further ih => exact ih.tail further

end ReachesIn

namespace Represents

variable {graph : PlanDag} {firstKey : Nat} {node : Nat → PlanNode}

/-- A way through the plan is a chain of reads between the vertices. -/
theorem occursAt_iff (represents : Represents graph firstKey node) {start id steps : Nat}
    (startMember : start ∈ graph.ids) (member : id ∈ graph.ids) :
    OccursAt (node id) steps (node start) ↔ ReachesIn graph.vertices start steps id := by
  have labels := represents.labels
  constructor
  · intro occurs
    generalize equal : node start = plan at occurs
    induction occurs generalizing start with
    | here =>
        have same := congrArg PlanNode.id equal
        rw [labels.id_eq startMember, labels.id_eq member] at same
        exact ReachesIn.zero_iff.mpr same.symm
    | under isInput _ ih =>
        rcases List.mem_map.mp startMember with ⟨vertex, present, rfl⟩
        rw [← equal, labels.inputs_eq present] at isInput
        rcases List.mem_map.mp isInput with ⟨input, listed, rfl⟩
        exact .head ⟨vertex, present, rfl, listed⟩ (ih (represents.input_mem present listed) rfl)
  · intro reaches
    induction reaches with
    | refl => exact .here
    | tail _ reads ih =>
        rcases reads with ⟨vertex, present, rfl, isInput⟩
        exact (ih (List.mem_map_of_mem present)).input (labels.mem_inputs present isInput)

end Represents

namespace PlanDag

/-- What is known of a search in a graph when the vertices `now`, at distance
`level`, and then the vertices `next`, one step farther, are in its queue: all
other vertices at a greater distance are unmarked, and those which are one step
farther are read by a vertex of `now`. -/
structure Frontier (graph : PlanDag) (level : Nat) (now next unmarked : List Vertex) : Prop where
  present : ∀ vertex ∈ now ++ next, vertex ∈ graph.vertices
  unvisited : ∀ vertex ∈ unmarked, vertex ∈ graph.vertices
  nodup : (unmarked.map (·.id)).Nodup
  reached : ∀ vertex ∈ now, ReachesIn graph.vertices graph.root level vertex.id
  least : ∀ vertex ∈ now, ∀ steps, ReachesIn graph.vertices graph.root steps vertex.id →
    level ≤ steps
  nextReached : ∀ vertex ∈ next, ReachesIn graph.vertices graph.root (level + 1) vertex.id
  nextLeast : ∀ vertex ∈ next, ∀ steps, ReachesIn graph.vertices graph.root steps vertex.id →
    level < steps
  farther : ∀ vertex ∈ unmarked, ∀ steps, ReachesIn graph.vertices graph.root steps vertex.id →
    level < steps
  read : ∀ vertex ∈ unmarked, ReachesIn graph.vertices graph.root (level + 1) vertex.id →
    ∃ reader ∈ now, vertex.id ∈ reader.inputs
  remaining : ∀ vertex ∈ graph.vertices,
    (∀ steps, ReachesIn graph.vertices graph.root steps vertex.id → level < steps) →
    vertex ∈ next ∨ vertex ∈ unmarked

namespace Frontier

variable {graph : PlanDag} {level : Nat} {now next unmarked : List Vertex}

/-- Nothing that is still to be visited is nearer than the level. -/
theorem le_of_mem (frontier : Frontier graph level now next unmarked) {vertex : Vertex}
    (waiting : (vertex ∈ now ∨ vertex ∈ next) ∨ vertex ∈ unmarked) {steps : Nat}
    (reaches : ReachesIn graph.vertices graph.root steps vertex.id) : level ≤ steps := by
  rcases waiting with (first | later) | left
  · exact frontier.least vertex first steps reaches
  · exact Nat.le_of_lt (frontier.nextLeast vertex later steps reaches)
  · exact Nat.le_of_lt (frontier.farther vertex left steps reaches)

/-- When a level is done, the next one begins. -/
theorem advance (frontier : Frontier graph level [] next unmarked) :
    Frontier graph (level + 1) next [] unmarked where
  present := by simpa using frontier.present
  unvisited := frontier.unvisited
  nodup := frontier.nodup
  reached := frontier.nextReached
  least := frontier.nextLeast
  nextReached := by simp
  nextLeast := by simp
  farther := by
    intro vertex left steps reaches
    have less := frontier.farther vertex left steps reaches
    rcases Nat.lt_or_eq_of_le less with more | rfl
    · exact more
    · rcases frontier.read vertex left reaches with ⟨reader, none, _⟩
      exact absurd none List.not_mem_nil
  read := by
    intro vertex left reaches
    rcases ReachesIn.succ_iff.mp reaches with ⟨reader, present, before, isInput⟩
    -- A reader that is nearer would bring the vertex nearer than it is.
    have far : ∀ steps, ReachesIn graph.vertices graph.root steps reader.id → level < steps := by
      intro steps early
      have less := frontier.farther vertex left _ (early.tail ⟨reader, present, rfl, isInput⟩)
      rcases Nat.lt_or_eq_of_le (Nat.le_of_lt_succ less) with more | rfl
      · exact more
      · rcases frontier.read vertex left (early.tail ⟨reader, present, rfl, isInput⟩) with
          ⟨other, none, _⟩
        exact absurd none List.not_mem_nil
    rcases frontier.remaining reader present far with queued | unseen
    · exact ⟨reader, queued, isInput⟩
    · rcases frontier.read reader unseen before with ⟨other, none, _⟩
      exact absurd none List.not_mem_nil
  remaining := by
    intro vertex present far
    rcases frontier.remaining vertex present fun steps reaches =>
      Nat.lt_of_succ_lt (far steps reaches) with queued | unseen
    · exact absurd (far _ (frontier.nextReached vertex queued)) (Nat.lt_irrefl _)
    · exact .inr unseen

/-- A visit puts what the vertex reads behind the next level. -/
theorem visit {vertex : Vertex} (frontier : Frontier graph level (vertex :: now) next unmarked)
    (wired : vertex.WiredTo vertex.inputs) :
    Frontier graph level now (next ++ (mark vertex.edges unmarked).1)
      (mark vertex.edges unmarked).2 := by
  have visited := List.mem_cons_self (a := vertex) (l := now)
  have found {other : Vertex} (marked : other ∈ (mark vertex.edges unmarked).1) :
      other ∈ unmarked := mem_mark.mp (.inl marked)
  have left {other : Vertex} (unseen : other ∈ (mark vertex.edges unmarked).2) :
      other ∈ unmarked := mem_mark.mp (.inr unseen)
  refine ⟨?present, fun other unseen => frontier.unvisited other (left unseen),
    nodup_unmarked frontier.nodup,
    fun other queued => frontier.reached other (List.mem_cons_of_mem _ queued),
    fun other queued => frontier.least other (List.mem_cons_of_mem _ queued), ?nextReached,
    ?nextLeast, fun other unseen => frontier.farther other (left unseen), ?read, ?remaining⟩
  case present =>
    intro other member
    rcases List.mem_append.mp member with queued | later
    · exact frontier.present other (by simp [queued])
    · rcases List.mem_append.mp later with old | new
      · exact frontier.present other (by simp [old])
      · exact frontier.unvisited other (found new)
  case nextReached =>
    intro other member
    rcases List.mem_append.mp member with old | new
    · exact frontier.nextReached other old
    · rcases exists_edge_of_marked new with ⟨edge, outgoing, leads⟩
      have isInput := wired.mem_map_input.mp (List.mem_map_of_mem (f := (·.input)) outgoing)
      rw [leads] at isInput
      exact (frontier.reached vertex visited).tail
        ⟨vertex, frontier.present vertex (by simp), rfl, isInput⟩
  case nextLeast =>
    intro other member
    rcases List.mem_append.mp member with old | new
    · exact frontier.nextLeast other old
    · exact frontier.farther other (found new)
  case read =>
    intro other unseen reaches
    rcases frontier.read other (left unseen) reaches with ⟨reader, queued, isInput⟩
    rcases List.mem_cons.mp queued with rfl | later
    · obtain ⟨edge, outgoing, leads⟩ := List.mem_map.mp (wired.mem_map_input.mpr isInput)
      exact absurd leads (input_ne_of_unmarked frontier.nodup unseen edge outgoing)
    · exact ⟨reader, later, isInput⟩
  case remaining =>
    intro other present far
    rcases frontier.remaining other present far with queued | unseen
    · exact .inl (List.mem_append_left _ queued)
    · exact (mem_mark.mpr unseen).imp (List.mem_append_right _) id

/-- The search goes on from a frontier by distance. -/
theorem search_pairwise (wired : ∀ vertex ∈ graph.vertices, vertex.WiredTo vertex.inputs)
    (queue unmarked : List Vertex) :
    ∀ level now next, Frontier graph level now next unmarked → queue = now ++ next →
      (search queue unmarked).Pairwise fun first second =>
        ∀ steps, ReachesIn graph.vertices graph.root steps second.id →
          ∃ fewer, fewer ≤ steps ∧ ReachesIn graph.vertices graph.root fewer first.id := by
  fun_induction search queue unmarked with
  | case1 unmarked =>
      intros
      exact .nil
  | case2 unmarked vertex queue marked ih =>
      intro level now next frontier queued
      -- The first vertex of the queue is of the level, or of the next one if the level is done.
      obtain ⟨level, now, next, frontier, rfl⟩ : ∃ level now next,
          Frontier graph level (vertex :: now) next unmarked ∧ queue = now ++ next := by
        cases now with
        | nil =>
            obtain rfl : vertex :: queue = next := queued
            exact ⟨level + 1, queue, [], frontier.advance, (List.append_nil queue).symm⟩
        | cons first now =>
            obtain ⟨rfl, rfl⟩ := List.cons.inj queued
            exact ⟨level, now, next, frontier, rfl⟩
      have present : vertex ∈ graph.vertices := frontier.present vertex (by simp)
      have later := frontier.visit (wired vertex present)
      refine .cons ?_ (ih level now _ later (List.append_assoc _ _ _))
      intro other member steps reaches
      have waiting := (search_subset _ _).2 other member
      rw [List.append_assoc, List.mem_append] at waiting
      exact ⟨level, later.le_of_mem waiting reaches, frontier.reached vertex List.mem_cons_self⟩

end Frontier

end PlanDag

namespace Represents

variable {graph : PlanDag} {firstKey : Nat} {node : Nat → PlanNode}

/-- The search begins with the root in the queue. -/
theorem frontier (represents : Represents graph firstKey node) :
    graph.Frontier 0 (PlanDag.mark [⟨0, graph.root⟩] graph.vertices).1 []
      (PlanDag.mark [⟨0, graph.root⟩] graph.vertices).2 := by
  have nodup := represents.ordered.nodup_ids
  have isRoot {vertex : Vertex}
      (marked : vertex ∈ (PlanDag.mark [⟨0, graph.root⟩] graph.vertices).1) :
      vertex.id = graph.root := by
    rcases PlanDag.exists_edge_of_marked marked with ⟨edge, member, leads⟩
    rw [← leads, List.mem_singleton.mp member]
  have notRoot {vertex : Vertex}
      (left : vertex ∈ (PlanDag.mark [⟨0, graph.root⟩] graph.vertices).2) :
      vertex.id ≠ graph.root :=
    (PlanDag.input_ne_of_unmarked nodup left ⟨0, graph.root⟩ List.mem_cons_self).symm
  refine ⟨?present, fun vertex left => PlanDag.mem_mark.mp (.inr left),
    PlanDag.nodup_unmarked nodup, fun vertex marked => ReachesIn.zero_iff.mpr (isRoot marked),
    fun _ _ _ _ => Nat.zero_le _, by simp, by simp, ?farther, ?read, ?remaining⟩
  case present =>
    intro vertex member
    rw [List.append_nil] at member
    exact PlanDag.mem_mark.mp (.inl member)
  case farther =>
    intro vertex left steps reaches
    cases steps with
    | zero => exact absurd (ReachesIn.zero_iff.mp reaches) (notRoot left)
    | succ steps => exact Nat.succ_pos steps
  case read =>
    intro vertex _ reaches
    rcases ReachesIn.succ_iff.mp reaches with ⟨reader, present, before, isInput⟩
    refine ⟨reader, ?_, isInput⟩
    rcases PlanDag.mem_mark.mpr present with marked | left
    · exact marked
    · exact absurd (ReachesIn.zero_iff.mp before) (notRoot left)
  case remaining =>
    intro vertex present far
    rcases PlanDag.mem_mark.mpr present with marked | left
    · exact absurd (far 0 (ReachesIn.zero_iff.mpr (isRoot marked))) (Nat.lt_irrefl 0)
    · exact .inr left

/-- Nodes are visited in the order of their distances from the root. -/
theorem breadthFirst_pairwise (represents : Represents graph firstKey node) :
    graph.breadthFirst.Pairwise fun first second =>
      NoFarther (node first.id) (node second.id) (node graph.root) := by
  have sorted := PlanDag.Frontier.search_pairwise
    (fun vertex present => represents.ordered.wired present) _ _ 0 _ _ represents.frontier
    (List.append_nil _).symm
  refine (List.Pairwise.and_mem.mp sorted).imp ?_
  rintro first second ⟨firstVisited, secondVisited, byDistance⟩ steps occurs
  have listed {vertex : Vertex} (visited : vertex ∈ graph.breadthFirst) : vertex.id ∈ graph.ids :=
    List.mem_map_of_mem (represents.mem_breadthFirst.mp visited)
  rw [represents.occursAt_iff represents.root (listed secondVisited)] at occurs
  obtain ⟨fewer, atMost, reaches⟩ := byDistance steps occurs
  exact ⟨fewer, atMost,
    (represents.occursAt_iff represents.root (listed firstVisited)).mpr reaches⟩

end Represents

end QueryPlan
