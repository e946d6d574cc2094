import Mathlib.Data.List.Nodup
import QueryPlan.Optimizer.Graph

/-!
# Order of a working graph

The edges of a vertex are stored by age, so the inputs of a vertex are read off
their positions: a vertex is wired when its edges are those of its inputs in
some order. A list of vertices is ordered when every vertex is wired, new, and
comes after its inputs. `Ordered below vertices` says so of vertices that stand
after those with the ids `below`.
-/

namespace QueryPlan

/-- The only member of a list that passes a test is the one that is found. -/
theorem find?_eq_some_of_unique {α : Type} {test : α → Bool} {members : List α} {member : α}
    (present : member ∈ members) (passes : test member = true)
    (unique : ∀ other ∈ members, test other = true → other = member) :
    members.find? test = some member := by
  cases found : members.find? test with
  | none =>
      have fails := List.find?_eq_none.mp found member present
      exact absurd passes fails
  | some other =>
      rw [unique other (List.mem_of_find?_eq_some found) (List.find?_some found)]

/-- Looking up all positions in order gives the list back. -/
theorem filterMap_getElem?_range {α : Type} (members : List α) :
    (List.range members.length).filterMap (members[·]?) = members := by
  induction members with
  | nil => rfl
  | cons first rest ih =>
      rw [List.length_cons, List.range_succ_eq_map, List.filterMap_cons, List.filterMap_map]
      simp only [List.getElem?_cons_zero]
      exact congrArg (first :: ·) ih

/-- Where every member gives a result, choosing is mapping. -/
theorem filterMap_eq_map_of_some {α β : Type} {members : List α} {choose : α → Option β}
    {image : α → β} (chosen : ∀ member ∈ members, choose member = some (image member)) :
    members.filterMap choose = members.map image := by
  induction members with
  | nil => rfl
  | cons first rest ih =>
      rw [List.filterMap_cons_some (chosen first List.mem_cons_self), List.map_cons,
        ih fun member later => chosen member (List.mem_cons_of_mem _ later)]

namespace Vertex

/-- A vertex whose edges lead to `inputs`, whatever their age. -/
def WiredTo (vertex : Vertex) (inputs : List Nat) : Prop :=
  vertex.edges.Perm (inputs.mapIdx Edge.mk)

theorem WiredTo.mem_edges {vertex : Vertex} {inputs : List Nat} (wired : vertex.WiredTo inputs)
    {edge : Edge} : edge ∈ vertex.edges ↔ inputs[edge.position]? = some edge.input := by
  rw [wired.mem_iff, List.mem_mapIdx]
  constructor
  · rintro ⟨position, bound, rfl⟩
    exact List.getElem?_eq_getElem bound
  · intro found
    rcases List.getElem?_eq_some_iff.mp found with ⟨bound, equal⟩
    exact ⟨edge.position, bound, by rw [equal]⟩

/-- The edges lead to the inputs. -/
theorem WiredTo.mem_map_input {vertex : Vertex} {inputs : List Nat}
    (wired : vertex.WiredTo inputs) {input : Nat} :
    input ∈ vertex.edges.map (·.input) ↔ input ∈ inputs := by
  rw [List.mem_map, List.mem_iff_getElem?]
  constructor
  · rintro ⟨edge, present, rfl⟩
    exact ⟨edge.position, wired.mem_edges.mp present⟩
  · rintro ⟨position, found⟩
    exact ⟨⟨position, input⟩, wired.mem_edges.mpr found, rfl⟩

/-- The inputs are read off the positions. -/
theorem WiredTo.inputs_eq {vertex : Vertex} {inputs : List Nat} (wired : vertex.WiredTo inputs) :
    vertex.inputs = inputs := by
  have lengths : vertex.edges.length = inputs.length := by
    rw [wired.length_eq, List.length_mapIdx]
  have found : ∀ position, (vertex.edges.find? (·.position == position)).map (·.input) =
      inputs[position]? := by
    intro position
    cases input : inputs[position]? with
    | none =>
        rw [Option.map_eq_none_iff, List.find?_eq_none]
        intro edge present same
        rw [wired.mem_edges, eq_of_beq same, input] at present
        simp at present
    | some input' =>
        have listed : ⟨position, input'⟩ ∈ vertex.edges := wired.mem_edges.mpr input
        have unique : vertex.edges.find? (·.position == position) = some ⟨position, input'⟩ := by
          refine find?_eq_some_of_unique listed (beq_self_eq_true position) ?_
          intro other present same
          have equal := wired.mem_edges.mp present
          rw [eq_of_beq same, input] at equal
          rcases other with ⟨otherPosition, otherInput⟩
          rcases eq_of_beq same with rfl
          rcases Option.some.inj equal with rfl
          rfl
        rw [unique]
        rfl
  rw [Vertex.inputs]
  simp only [found, lengths]
  exact filterMap_getElem?_range inputs

theorem wiredTo_ofInputs (id : Nat) (operator : Operator) (inputs : List Nat) :
    (ofInputs id operator inputs).WiredTo inputs :=
  List.reverse_perm _

@[simp] theorem inputs_ofInputs (id : Nat) (operator : Operator) (inputs : List Nat) :
    (ofInputs id operator inputs).inputs = inputs :=
  (wiredTo_ofInputs id operator inputs).inputs_eq

/-- Where an edge leads after a redirection. -/
def redirected (origin replacement input : Nat) : Nat :=
  if input = origin then replacement else input

/-- A redirection changes the age of edges, but not the position of an input. -/
theorem WiredTo.redirect {vertex : Vertex} {inputs : List Nat} (wired : vertex.WiredTo inputs)
    (origin replacement : Nat) :
    (vertex.redirect origin replacement).WiredTo (inputs.map (redirected origin replacement)) := by
  let turn : Edge → Edge := fun edge => ⟨edge.position, redirected origin replacement edge.input⟩
  have moved : (vertex.edges.filter (·.input == origin)).map
        ({ · with input := replacement }) =
      (vertex.edges.filter (·.input == origin)).map turn := by
    apply List.map_congr_left
    intro edge member
    simp only [turn, redirected, if_pos (eq_of_beq (List.mem_filter.mp member).2)]
  have kept : (vertex.edges.filter (·.input != origin)).map turn =
      vertex.edges.filter (·.input != origin) := by
    refine (List.map_congr_left (g := fun edge => edge) ?_).trans (List.map_id' _)
    intro edge member
    have differs : edge.input ≠ origin := by simpa using (List.mem_filter.mp member).2
    simp only [turn, redirected, if_neg differs]
  have turned : (vertex.redirect origin replacement).edges.Perm (vertex.edges.map turn) := by
    change ((vertex.edges.filter (·.input == origin)).reverse.map _ ++ _).Perm _
    rw [List.map_reverse, moved, ← kept]
    refine ((List.reverse_perm _).append_right _).trans ?_
    rw [← List.map_append]
    exact (List.filter_append_perm (·.input == origin) vertex.edges).map turn
  have images : (inputs.mapIdx Edge.mk).map turn =
      (inputs.map (redirected origin replacement)).mapIdx Edge.mk := by
    apply List.ext_getElem?
    intro index
    simp only [List.getElem?_map, List.getElem?_mapIdx]
    cases inputs[index]? <;> rfl
  rw [WiredTo]
  rw [← images]
  exact turned.trans (wired.map turn)

end Vertex

/-- Whether every vertex is new, wired, and after its inputs, where the vertices
with the ids `below` stand before all of them. -/
def Ordered : (below : List Nat) → List Vertex → Prop
  | _, [] => True
  | below, vertex :: rest =>
    vertex.id ∉ below ∧ vertex.WiredTo vertex.inputs ∧ (∀ input ∈ vertex.inputs, input ∈ below) ∧
      Ordered (vertex.id :: below) rest

namespace Ordered

variable {below : List Nat} {vertices : List Vertex}

theorem append_iff {first second : List Vertex} :
    Ordered below (first ++ second) ↔
      Ordered below first ∧ Ordered ((first.map (·.id)).reverse ++ below) second := by
  induction first generalizing below with
  | nil => simp [Ordered]
  | cons vertex rest ih => simp [Ordered, ih, and_assoc]

theorem wired (ordered : Ordered below vertices) {vertex : Vertex} (member : vertex ∈ vertices) :
    vertex.WiredTo vertex.inputs := by
  induction vertices generalizing below with
  | nil => simp at member
  | cons first rest ih =>
      rcases ordered with ⟨_, wired, _, later⟩
      rcases List.mem_cons.mp member with rfl | present
      · exact wired
      · exact ih later present

theorem id_not_below (ordered : Ordered below vertices) {vertex : Vertex}
    (member : vertex ∈ vertices) : vertex.id ∉ below := by
  induction vertices generalizing below with
  | nil => simp at member
  | cons first rest ih =>
      rcases ordered with ⟨new, _, _, later⟩
      rcases List.mem_cons.mp member with rfl | present
      · exact new
      · exact fun old => ih later present (List.mem_cons_of_mem _ old)

theorem nodup_ids (ordered : Ordered below vertices) : (vertices.map (·.id)).Nodup := by
  induction vertices generalizing below with
  | nil => exact .nil
  | cons vertex rest ih =>
      rcases ordered with ⟨_, _, _, later⟩
      refine List.nodup_cons.mpr ⟨?_, ih later⟩
      intro again
      rcases List.mem_map.mp again with ⟨other, present, same⟩
      exact later.id_not_below present (by simp [same])

/-- Vertices with one id are one vertex. -/
theorem eq_of_id (ordered : Ordered below vertices) {left right : Vertex}
    (leftMember : left ∈ vertices) (rightMember : right ∈ vertices) (same : left.id = right.id) :
    left = right :=
  List.inj_on_of_nodup_map ordered.nodup_ids leftMember rightMember same

/-- The inputs of a vertex are vertices, or stand below all of them. -/
theorem input_mem (ordered : Ordered below vertices) {vertex : Vertex}
    (member : vertex ∈ vertices) {input : Nat} (isInput : input ∈ vertex.inputs) :
    input ∈ below ∨ input ∈ vertices.map (·.id) := by
  induction vertices generalizing below with
  | nil => simp at member
  | cons first rest ih =>
      rcases ordered with ⟨_, _, inputs, later⟩
      rcases List.mem_cons.mp member with rfl | present
      · exact .inl (inputs input isInput)
      · rcases ih later present with old | new
        · rcases List.mem_cons.mp old with rfl | older
          · exact .inr (by simp)
          · exact .inl older
        · exact .inr (by simp [new])

/-- Vertices that are kept together with their inputs stay in order. -/
theorem filter (keep : Nat → Bool) (ordered : Ordered below vertices)
    (closed : ∀ vertex ∈ vertices, keep vertex.id = true →
      ∀ input ∈ vertex.inputs, keep input = true) :
    Ordered (below.filter keep) (vertices.filter (keep ·.id)) := by
  induction vertices generalizing below with
  | nil => trivial
  | cons vertex rest ih =>
      rcases ordered with ⟨new, wired, inputs, later⟩
      have tail := ih later fun other present => closed other (List.mem_cons_of_mem _ present)
      by_cases kept : keep vertex.id = true
      · rw [List.filter_cons_of_pos kept] at tail
        rw [List.filter_cons_of_pos (by exact kept)]
        refine ⟨fun old => new (List.mem_filter.mp old).1, wired, ?_, tail⟩
        intro input isInput
        exact List.mem_filter.mpr
          ⟨inputs input isInput, closed vertex List.mem_cons_self kept input isInput⟩
      · rw [List.filter_cons_of_neg kept] at tail
        rw [List.filter_cons_of_neg (by exact kept)]
        exact tail

/-- No vertex reads itself. -/
theorem id_not_input (ordered : Ordered below vertices) {vertex : Vertex}
    (member : vertex ∈ vertices) : vertex.id ∉ vertex.inputs := by
  induction vertices generalizing below with
  | nil => simp at member
  | cons first rest ih =>
      rcases ordered with ⟨new, _, inputs, later⟩
      rcases List.mem_cons.mp member with rfl | present
      · exact fun isInput => new (inputs _ isInput)
      · exact ih later present

end Ordered

end QueryPlan
