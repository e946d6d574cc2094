import QueryPlan.Proofs.Elimination.Step
import QueryPlan.Proofs.Equality.Form

/-!
# Templates that are built alike

Two templates are alike when their operators have the same forms and when a map
on plans, the image, gives the nodes that the first stands on the forms of those
that the second stands on. Where the image goes through the operators of the
first template, the placed templates then correspond as well. The elimination
builds alike over inputs with the same renamed schema, because it looks at
nothing else of its input.
-/

namespace QueryPlan

open PlanNode

variable {naming : String → String} {image : PlanNode → PlanNode}

/-- Whether an image of a node with this operator is made of the images of the
inputs. -/
def Congruent (image : PlanNode → PlanNode) (naming : String → String) (operator : Operator) : Prop :=
  ∀ key id inputs otherKey otherId other others, operator.form naming = other.form naming →
    inputs.map image = others.map (form naming) →
    image (assemble key id operator inputs) = (assemble otherKey otherId other others).form naming

theorem congruent_form (operator : Operator) : Congruent (form naming) naming operator :=
  fun _ _ _ _ _ _ _ operators forms => form_assemble operators forms

namespace Template

mutual
/-- Whether two templates are built alike, the one over images, the other over forms. -/
inductive Alike (image : PlanNode → PlanNode) (naming : String → String) : Template → Template → Prop
  | existing {leaf other : PlanNode} :
      image leaf = other.form naming → Alike image naming (.existing leaf) (.existing other)
  | node {operator other : Operator} {lefts rights : List Template} :
      operator.form naming = other.form naming → AlikeAll image naming lefts rights →
      Alike image naming (.node operator lefts) (.node other rights)

/-- Whether the templates of two lists are built alike, one by one. -/
inductive AlikeAll (image : PlanNode → PlanNode) (naming : String → String) :
    List Template → List Template → Prop
  | nil : AlikeAll image naming [] []
  | cons {left right : Template} {lefts rights : List Template} :
      Alike image naming left right → AlikeAll image naming lefts rights →
      AlikeAll image naming (left :: lefts) (right :: rights)
end

mutual
/-- The image of a placed template is the form of the other one, wherever both are placed. -/
theorem image_place {left right : Template} (alike : Alike image naming left right)
    (congruent : ∀ operator ∈ left.operators, Congruent image naming operator)
    (key id otherKey otherId : Nat) :
    image (left.place key id) = (right.place otherKey otherId).form naming := by
  cases alike with
  | existing leaf =>
      simp only [place]
      exact leaf
  | node operators inputs =>
      simp only [place]
      apply congruent _ (by simp [Template.operators]) _ _ _ _ _ _ _ operators
      apply image_placeAll inputs
      intro operator member
      exact congruent operator (by simp [Template.operators, member])

theorem image_placeAll {lefts rights : List Template} (alike : AlikeAll image naming lefts rights)
    (congruent : ∀ operator ∈ operatorsAll lefts, Congruent image naming operator)
    (key id otherKey otherId : Nat) :
    (placeAll key id lefts).map image = (placeAll otherKey otherId rights).map (form naming) := by
  cases alike with
  | nil => rfl
  | cons first rest =>
      simp only [placeAll, List.map_cons]
      rw [image_place first fun operator member => congruent operator (by simp [operatorsAll, member]),
        image_placeAll rest fun operator member => congruent operator (by simp [operatorsAll, member])]
end

end Template

namespace DistinctElimination

open Template

variable {aggregate : Aggregate} {input other : PlanNode}

theorem form_projection (schema : Schema) (ordinals : List Nat) :
    (DistinctSelection.projection schema ordinals).form naming =
      DistinctSelection.projection (schema.rename naming) ordinals := by
  simp only [DistinctSelection.projection, Operator.form, Operator.canonical, Operator.rename,
    List.map_filterMap, Schema.field?_rename, Option.map_map]
  rfl

theorem alike_selection (leaf : image input = other.form naming)
    (schemas : input.schema.rename naming = other.schema.rename naming) (ordinals : List Nat) :
    Alike image naming (DistinctSelection.template input ordinals)
      (DistinctSelection.template other ordinals) := by
  refine .node rfl (.cons (.node ?_ (.cons (.existing leaf) .nil)) .nil)
  rw [form_projection, form_projection, schemas]

theorem alike_plainSide (leaf : image input = other.form naming) :
    Alike image naming (plainSide aggregate input) (plainSide aggregate other) :=
  .node rfl (.cons (.existing leaf) .nil)

theorem alike_distinctSide (leaf : image input = other.form naming)
    (schemas : input.schema.rename naming = other.schema.rename naming) (args : List Nat) :
    Alike image naming (distinctSide aggregate input args) (distinctSide aggregate other args) :=
  .node rfl (.cons (alike_selection leaf schemas _) .nil)

theorem take_types {lefts rights : List Field} (types : lefts.map (·.type) = rights.map (·.type))
    (count : Nat) : (lefts.take count).map (·.type) = (rights.take count).map (·.type) := by
  rw [List.map_take, List.map_take, types]

/-- A join condition looks at the types of the group fields only. -/
theorem joinCondition_congr {lefts rights : List Field}
    (types : lefts.map (·.type) = rights.map (·.type)) (start : Nat) :
    joinCondition lefts start = joinCondition rights start := by
  rw [joinCondition, joinCondition]
  rw [mapIdx_type_congr (fun index type =>
    (Expr.column index type).equal (.column (start + index) type)) types]

theorem outputColumns_congr {left right : Schema} (types : left.types = right.types) :
    outputColumns aggregate left = outputColumns aggregate right := by
  rw [outputColumns, outputColumns]
  rw [mapIdx_type_congr Expr.column (take_types types aggregate.groupCount)]

/-- Joining further sides keeps what is joined alike. -/
theorem alike_sides (leaf : image input = other.form naming)
    (schemas : input.schema.rename naming = other.schema.rename naming) {left right : Template}
    (alike : Alike image naming left right) (lists : List (List Nat)) :
    Alike image naming (lists.foldl (joinSide aggregate input) left)
      (lists.foldl (joinSide aggregate other) right) := by
  have types := (Schema.rename_eq_iff.mp schemas).1
  induction lists generalizing left right with
  | nil => exact alike
  | cons args rest ih =>
      rw [List.foldl_cons, List.foldl_cons]
      apply ih
      refine .node ?_ (.cons alike (.cons (alike_distinctSide leaf schemas args) .nil))
      rw [joinCondition_congr (take_types types aggregate.groupCount)]

theorem alike_joined (leaf : image input = other.form naming)
    (schemas : input.schema.rename naming = other.schema.rename naming) {names otherNames : List String}
    (sameNames : names.map naming = otherNames.map naming) :
    Alike image naming (joined aggregate input names) (joined aggregate other otherNames) := by
  have types := (Schema.rename_eq_iff.mp schemas).1
  refine .node ?_ (.cons (alike_sides leaf schemas (alike_plainSide leaf) _) .nil)
  rw [outputColumns_congr types, Operator.form, Operator.form]
  simp only [Operator.canonical, Operator.rename, sameNames]

/-- The elimination builds alike over inputs with the same renamed schema. -/
theorem alike_replacement (leaf : image input = other.form naming)
    (schemas : input.schema.rename naming = other.schema.rename naming) {names otherNames : List String}
    (sameNames : names.map naming = otherNames.map naming) :
    Alike image naming (replacement aggregate input names) (replacement aggregate other otherNames) := by
  rw [replacement, replacement]
  cases aggregate.soleArguments? with
  | some args => exact alike_distinctSide leaf schemas args
  | none => exact alike_joined leaf schemas sameNames

end DistinctElimination

end QueryPlan
