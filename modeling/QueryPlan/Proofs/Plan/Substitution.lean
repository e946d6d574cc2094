import QueryPlan.Proofs.Plan.Validity

/-!
# Substituting in a plan

`PlanNode.substitute` puts a replacement in the place of the nodes with some id
and assembles everything above them anew. When a single node has this id and
the replacement has its types, the plan stays built and keeps its types. More
generally, whatever a node derives from its operator and from the same thing of
its inputs survives a substitution if it has the same value on the replacement
as on the replaced node (`PlanNode.image_substitute`).
-/

namespace QueryPlan.PlanNode

mutual
/-- The plan with `replacement` in the place of the nodes with id `origin`. -/
def substitute (origin : Nat) (replacement : PlanNode) : PlanNode → PlanNode
  | ⟨key, id, operator, inputs, _⟩ =>
    if id = origin then replacement
    else assemble key id operator (substituteAll origin replacement inputs)

/-- Several plans with `replacement` in the place of the nodes with id `origin`. -/
def substituteAll (origin : Nat) (replacement : PlanNode) : List PlanNode → List PlanNode
  | [] => []
  | node :: rest => substitute origin replacement node :: substituteAll origin replacement rest
end

variable {origin : Nat} {replacement target plan : PlanNode}

@[simp] theorem substituteAll_eq_map (nodes : List PlanNode) :
    substituteAll origin replacement nodes = nodes.map (substitute origin replacement) := by
  induction nodes with
  | nil => rfl
  | cons node rest ih => simp [substituteAll, ih]

theorem substitute_eq (node : PlanNode) :
    substitute origin replacement node =
      if node.id = origin then replacement
      else assemble node.key node.id node.operator
        (node.inputs.map (substitute origin replacement)) := by
  cases node
  simp [substitute]

/-- A node that is not replaced stays what it is, over what takes the place of its
inputs. -/
theorem substitute_of_ne {node : PlanNode} (apart : node.id ≠ origin) :
    (substitute origin replacement node).key = node.key ∧
      (substitute origin replacement node).id = node.id ∧
      (substitute origin replacement node).operator = node.operator ∧
      (substitute origin replacement node).inputs =
        node.inputs.map (substitute origin replacement) := by
  rw [substitute_eq, if_neg apart]
  exact ⟨rfl, rfl, rfl, rfl⟩

/-- Whether `target` is the only node of a plan with its id. -/
def Pinned (target plan : PlanNode) : Prop :=
  ∀ node, Occurs node plan → node.id = target.id → node = target

theorem Pinned.input {input : PlanNode} (pinned : Pinned target plan)
    (member : input ∈ plan.inputs) : Pinned target input :=
  fun node occurs => pinned node (.under member occurs)

/-- A substitution keeps what nodes derive from their operators and from the
same thing of their inputs. -/
theorem image_substitute {γ : Type} {image : PlanNode → γ}
    (congruent : ∀ node, Occurs node plan → ∀ inputs, inputs.map image = node.inputs.map image →
      image (assemble node.key node.id node.operator inputs) = image node)
    (pinned : Pinned target plan) (equal : image replacement = image target) :
    image (substitute target.id replacement plan) = image plan := by
  induction plan using PlanNode.induct with
  | node key id operator inputs schema ih =>
      rw [substitute_eq]
      split
      · rename_i same
        rw [equal, pinned _ .here same]
      · apply congruent _ .here
        rw [List.map_map]
        apply List.map_congr_left
        intro input member
        rw [Function.comp_apply]
        apply ih input member
        · intro node occurs
          exact congruent node (.under member occurs)
        · exact pinned.input member

/-- Types survive the substitution of a node by one with the same types. -/
theorem types_substitute (built : plan.Built) (pinned : Pinned target plan)
    (types : replacement.types = target.types) :
    (substitute target.id replacement plan).types = plan.types := by
  apply image_substitute _ pinned types
  intro node occurs inputs same
  exact (build_of_same_types (built node occurs) same).2

theorem built_substitute (built : plan.Built) (pinned : Pinned target plan)
    (types : replacement.types = target.types) (replaced : replacement.Built) :
    (substitute target.id replacement plan).Built := by
  induction plan using PlanNode.induct with
  | node key id operator inputs schema ih =>
      rw [substitute_eq]
      split
      · exact replaced
      · have same : (inputs.map (substitute target.id replacement)).map PlanNode.types =
            inputs.map PlanNode.types := by
          rw [List.map_map]
          apply List.map_congr_left
          intro input member
          exact types_substitute (built.input member) (pinned.input member) types
        have typed := (built _ .here).typed
        simp only at typed
        rw [← same] at typed
        apply built_assemble typed
        intro node member
        rcases List.mem_map.mp member with ⟨input, present, rfl⟩
        exact ih input present (built.input present) (pinned.input present)

/-- A substitution of what does not occur changes nothing. -/
theorem substitute_of_absent (built : plan.Built)
    (absent : ∀ node, Occurs node plan → node.id ≠ origin) :
    substitute origin replacement plan = plan := by
  induction plan using PlanNode.induct with
  | node key id operator inputs schema ih =>
      have unchanged : inputs.map (substitute origin replacement) = inputs := by
        apply map_eq_self
        intro input member
        exact ih input member (built.input member) fun node occurs =>
          absent node (.under member occurs)
      rw [substitute_eq, if_neg (absent _ .here), unchanged]
      exact (built _ .here).eq_assemble.symm

/-- What occurs after a substitution occurs in the replacement or has the
operator of a node that was not replaced. -/
theorem occurs_substitute {node : PlanNode}
    (occurs : Occurs node (substitute origin replacement plan)) :
    Occurs node replacement ∨
      ∃ original, Occurs original plan ∧ original.id ≠ origin ∧
        node = substitute origin replacement original := by
  induction plan using PlanNode.induct with
  | node key id operator inputs schema ih =>
      have unfolded := @substitute_eq origin replacement ⟨key, id, operator, inputs, schema⟩
      by_cases same : id = origin
      · rw [unfolded, if_pos same] at occurs
        exact .inl occurs
      · rcases occurs_iff.mp occurs with rfl | ⟨input, member, inside⟩
        · exact .inr ⟨_, .here, same, rfl⟩
        · rw [unfolded, if_neg same] at member
          rcases List.mem_map.mp member with ⟨original, present, rfl⟩
          rcases ih original present inside with new | ⟨below, occursBelow, apart, equal⟩
          · exact .inl new
          · exact .inr ⟨below, .under present occursBelow, apart, equal⟩

end QueryPlan.PlanNode
