import QueryPlan.Proofs.Plan.Validity

/-!
# Ways through a plan

Where nodes are shared, a node can be reached from the root in several ways.
`OccursAt` counts the steps of a way. A node is no farther from the root than
another one (`NoFarther`) when to every way to the other one there is a way to it
that is not longer.

A node guards a plan (`Guards`) when no way to a node below it leads around it, so
that it is nearer to the root than all of them. In a plan in which no node has
two readers, every node guards. `Shadows` is for plans that were made from other
plans: when every way through the new plan follows a way through the old one,
nodes that guarded the old plan guard the new one.
-/

namespace QueryPlan.PlanNode

/-- `node` is reached from `plan` in so many steps. -/
inductive OccursAt (node : PlanNode) : Nat → PlanNode → Prop
  | here : OccursAt node 0 node
  | under {steps : Nat} {input plan : PlanNode} :
      input ∈ plan.inputs → OccursAt node steps input → OccursAt node (steps + 1) plan

/-- `node` is reached from `plan` by a way on which `guard` is not. -/
inductive OccursAvoiding (guard node : PlanNode) : PlanNode → Prop
  | here : node ≠ guard → OccursAvoiding guard node node
  | under {input plan : PlanNode} :
      plan ≠ guard → input ∈ plan.inputs → OccursAvoiding guard node input →
      OccursAvoiding guard node plan

/-- Whether no way to `far` is shorter than all ways to `near`. -/
def NoFarther (near far plan : PlanNode) : Prop :=
  ∀ steps, OccursAt far steps plan → ∃ fewer, fewer ≤ steps ∧ OccursAt near fewer plan

/-- Whether all ways to the nodes below `guard` go through it. -/
def Guards (guard plan : PlanNode) : Prop :=
  ∀ inner, Occurs inner guard → inner ≠ guard → ¬OccursAvoiding guard inner plan

variable {guard inner node plan : PlanNode} {steps : Nat}

section Steps

theorem OccursAt.occurs (occurs : OccursAt node steps plan) : Occurs node plan := by
  induction occurs with
  | here => exact .here
  | under member _ ih => exact .under member ih

theorem Occurs.exists_occursAt (occurs : Occurs node plan) : ∃ steps, OccursAt node steps plan := by
  induction occurs with
  | here => exact ⟨0, .here⟩
  | under member _ ih =>
      rcases ih with ⟨steps, inside⟩
      exact ⟨steps + 1, .under member inside⟩

@[simp] theorem occursAt_zero : OccursAt node 0 plan ↔ node = plan := by
  constructor
  · intro occurs
    cases occurs
    rfl
  · rintro rfl
    exact .here

/-- A way goes on to the inputs of the node that it has reached. -/
theorem OccursAt.input (occurs : OccursAt node steps plan) {input : PlanNode}
    (member : input ∈ node.inputs) : OccursAt input (steps + 1) plan := by
  induction occurs with
  | here => exact .under member .here
  | under above _ ih => exact .under above ih

/-- The last step of a way is from a reader. -/
theorem OccursAt.exists_reader (occurs : OccursAt node (steps + 1) plan) :
    ∃ reader, OccursAt reader steps plan ∧ node ∈ reader.inputs := by
  induction steps generalizing plan with
  | zero =>
      rcases occurs with _ | ⟨member, inside⟩
      obtain rfl := occursAt_zero.mp inside
      exact ⟨plan, .here, member⟩
  | succ steps ih =>
      rcases occurs with _ | ⟨member, inside⟩
      rcases ih inside with ⟨reader, reached, reads⟩
      exact ⟨reader, .under member reached, reads⟩

end Steps

section Guards

theorem OccursAvoiding.ne (avoiding : OccursAvoiding guard node plan) : node ≠ guard := by
  induction avoiding with
  | here apart => exact apart
  | under _ _ _ ih => exact ih

/-- A way that avoids a node comes from the root itself or from a reader that is
reached in the same manner. -/
theorem OccursAvoiding.exists_reader (avoiding : OccursAvoiding guard node plan) :
    node = plan ∨ ∃ reader, OccursAvoiding guard reader plan ∧ node ∈ reader.inputs := by
  induction avoiding with
  | here _ => exact .inl rfl
  | under apart member _ ih =>
      rcases ih with rfl | ⟨reader, reached, reads⟩
      · exact .inr ⟨_, .here apart, member⟩
      · exact .inr ⟨reader, .under apart member reached, reads⟩

theorem OccursAvoiding.occurs (avoiding : OccursAvoiding guard node plan) : Occurs node plan := by
  induction avoiding with
  | here _ => exact .here
  | under _ member _ ih => exact .under member ih

/-- A way leads around a node or through it. -/
theorem OccursAt.avoiding_or (occurs : OccursAt inner steps plan) (guard : PlanNode) :
    OccursAvoiding guard inner plan ∨
      ∃ before after, before + after = steps ∧ OccursAt guard before plan ∧
        OccursAt inner after guard := by
  induction occurs with
  | here =>
      by_cases same : inner = guard
      · exact .inr ⟨0, 0, rfl, same ▸ .here, same ▸ .here⟩
      · exact .inl (.here same)
  | @under steps input plan member inside ih =>
      by_cases same : plan = guard
      · exact .inr ⟨0, steps + 1, Nat.zero_add _, same ▸ .here, same ▸ .under member inside⟩
      · rcases ih with avoiding | ⟨before, after, total, above, below⟩
        · exact .inl (.under same member avoiding)
        · exact .inr ⟨before + 1, after, by omega, .under member above, below⟩

/-- A way leads around a node to any other one that is no farther from the root. -/
theorem NoFarther.avoiding (noFarther : NoFarther inner guard plan) (apart : inner ≠ guard)
    (inPlan : Occurs inner plan) : OccursAvoiding guard inner plan := by
  apply Classical.byContradiction
  intro none
  -- To a way that goes through the guard there would always be a shorter one.
  have unreached : ∀ steps, ¬OccursAt inner steps plan := by
    intro steps
    induction steps using Nat.strongRecOn with
    | ind steps ih =>
        intro occurs
        rcases occurs.avoiding_or guard with avoiding | ⟨before, after, total, above, below⟩
        · exact none avoiding
        · obtain ⟨fewer, atMost, again⟩ := noFarther before above
          have further : after ≠ 0 := by
            rintro rfl
            exact apart (occursAt_zero.mp below)
          exact ih fewer (by omega) again
  obtain ⟨steps, occurs⟩ := inPlan.exists_occursAt
  exact unreached steps occurs

/-- In a plan in which no node has two readers, every node guards. -/
theorem guards_of_single_reader
    (single : ∀ left right, Occurs left plan → Occurs right plan →
      ∀ input ∈ left.inputs, input ∈ right.inputs → left = right)
    (inPlan : Occurs guard plan) : Guards guard plan := by
  intro inner below apart avoiding
  obtain ⟨steps, reached⟩ := below.exists_occursAt
  induction steps generalizing inner with
  | zero => exact apart (occursAt_zero.mp reached)
  | succ steps ih =>
      obtain ⟨reader, above, reads⟩ := reached.exists_reader
      rcases avoiding.exists_reader with rfl | ⟨other, otherAvoids, otherReads⟩
      · exact apart (below.antisymm inPlan)
      · obtain rfl := single reader other (above.occurs.trans inPlan) otherAvoids.occurs inner reads
          otherReads
        exact ih reader above.occurs otherAvoids.ne otherAvoids above

end Guards

section Shadows

/-- Whether the related nodes of an old plan follow every step from a node to its
inputs, or stay where they are. -/
def Shadows (related : PlanNode → PlanNode → Prop) : Prop :=
  ∀ image original, related image original → ∀ input ∈ image.inputs,
    ∃ other, related input other ∧ (other = original ∨ other ∈ original.inputs)

namespace Shadows

variable {related : PlanNode → PlanNode → Prop} {image imageGuard : PlanNode}

theorem exists_occurs (shadows : Shadows related) (occurs : Occurs inner image)
    (origin : related image plan) : ∃ original, related inner original ∧ Occurs original plan := by
  induction occurs generalizing plan with
  | here => exact ⟨plan, origin, .here⟩
  | under member _ ih =>
      obtain ⟨other, inputRelated, rfl | isInput⟩ := shadows _ _ origin _ member
      · exact ih inputRelated
      · obtain ⟨original, innerRelated, occurs⟩ := ih inputRelated
        exact ⟨original, innerRelated, .under isInput occurs⟩

theorem exists_avoiding (shadows : Shadows related)
    (fixed : ∀ other, related other guard → other = imageGuard)
    (avoiding : OccursAvoiding imageGuard inner image) (origin : related image plan) :
    ∃ original, related inner original ∧ OccursAvoiding guard original plan := by
  have apart {other node : PlanNode} (differs : other ≠ imageGuard) (both : related other node) :
      node ≠ guard := fun same => differs (fixed other (same ▸ both))
  induction avoiding generalizing plan with
  | here differs => exact ⟨plan, origin, .here (apart differs origin)⟩
  | under differs member _ ih =>
      obtain ⟨other, inputRelated, rfl | isInput⟩ := shadows _ _ origin _ member
      · exact ih inputRelated
      · obtain ⟨original, innerRelated, avoids⟩ := ih inputRelated
        exact ⟨original, innerRelated, .under (apart differs origin) isInput avoids⟩

/-- The only image of a guard guards the new plan. -/
theorem guards (shadows : Shadows related)
    (functional : ∀ inner left right, related inner left → related inner right → left = right)
    (fixed : ∀ other, related other guard ↔ other = imageGuard) (origin : related image plan)
    (guards : Guards guard plan) : Guards imageGuard image := by
  intro inner below apart avoiding
  obtain ⟨original, innerRelated, occurs⟩ :=
    shadows.exists_occurs below ((fixed imageGuard).mpr rfl)
  obtain ⟨other, otherRelated, avoids⟩ :=
    shadows.exists_avoiding (fun other => (fixed other).mp) avoiding origin
  obtain rfl := functional inner original other innerRelated otherRelated
  refine guards original occurs ?_ avoids
  intro same
  exact apart ((fixed inner).mp (same ▸ innerRelated))

end Shadows

end Shadows

end QueryPlan.PlanNode
