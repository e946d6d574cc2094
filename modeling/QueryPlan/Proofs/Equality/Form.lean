import QueryPlan.Proofs.Equality.Canonical
import QueryPlan.Proofs.Plan.Validity

/-!
# Equality of plans up to names

The names of columns may be exchanged throughout a plan, in its projections and
in its schemas; tables keep the fields that they declare. Plans that are equal
after an exchange of names have the same form, which has no keys and no ids, and
canonical literals. The form of a node is made of its operator and of the forms
of its inputs.
-/

namespace QueryPlan

variable {naming : String → String}

/-- Members with equal images under one map have equal images under another one. -/
theorem map_eq_map_of_members {α β γ : Type} {image : α → β} {other : α → γ} {lefts rights : List α}
    (members : ∀ left ∈ lefts, ∀ right, image left = image right → other left = other right)
    (same : lefts.map image = rights.map image) : lefts.map other = rights.map other := by
  induction lefts generalizing rights with
  | nil =>
      cases rights with
      | nil => rfl
      | cons right rights => simp at same
  | cons left lefts ih =>
      cases rights with
      | nil => simp at same
      | cons right rights =>
          rcases List.cons.inj same with ⟨first, rest⟩
          have restMembers : ∀ member ∈ lefts, ∀ right, image member = image right →
              other member = other right :=
            fun member present => members member (List.mem_cons_of_mem _ present)
          rw [List.map_cons, List.map_cons, members left List.mem_cons_self right first,
            ih restMembers rest]

namespace Field

/-- The field with another name. -/
def rename (naming : String → String) (field : Field) : Field := ⟨naming field.name, field.type⟩

theorem rename_eq_iff {left right : Field} :
    left.rename naming = right.rename naming ↔
      left.type = right.type ∧ naming left.name = naming right.name := by
  rw [rename, rename, Field.mk.injEq, and_comm]

end Field

namespace Schema

/-- The schema with other names. -/
def rename (naming : String → String) (schema : Schema) : Schema :=
  ⟨schema.fields.map (·.rename naming)⟩

/-- A renamed schema has the types and the renamed names, and no more. -/
theorem rename_eq_iff {left right : Schema} :
    left.rename naming = right.rename naming ↔
      left.types = right.types ∧ left.names.map naming = right.names.map naming := by
  rw [rename, rename, Schema.mk.injEq, types, types, names, names]
  generalize left.fields = lefts
  generalize right.fields = rights
  induction lefts generalizing rights with
  | nil => cases rights <;> simp
  | cons left lefts ih =>
      cases rights with
      | nil => simp
      | cons right rights =>
          simp only [List.map_cons, List.cons.injEq, Field.rename_eq_iff, ih]
          exact and_and_and_comm

theorem rename_join (left right : Schema) :
    (left.join right).rename naming = (left.rename naming).join (right.rename naming) := by
  simp only [rename, join, List.map_append]

theorem field?_rename (schema : Schema) (index : Nat) :
    (schema.rename naming).field? index = (schema.field? index).map (·.rename naming) := by
  rw [field?, field?, rename, List.getElem?_map]

@[simp] theorem rename_self (schema : Schema) : schema.rename (fun name => name) = schema := by
  simp [rename, Field.rename]

end Schema

namespace Operator

/-- The operator with other names of columns. -/
def rename (naming : String → String) : Operator → Operator
  | projection exprs names => .projection exprs (names.map naming)
  | operator => operator

/-- The operator with other names of columns and with canonical literals. -/
def form (naming : String → String) (operator : Operator) : Operator :=
  operator.canonical.rename naming

theorem canonical_rename (operator : Operator) :
    (operator.rename naming).canonical = operator.form naming := by
  cases operator <;> rfl

@[simp] theorem rename_self (operator : Operator) :
    operator.rename (fun name => name) = operator := by
  cases operator <;> simp [rename]

@[simp] theorem form_self (operator : Operator) :
    operator.form (fun name => name) = operator.canonical :=
  rename_self operator.canonical

/-- The schema of a projection pairs the types of its expressions with its names. -/
theorem rename_fields_projection (exprs : List Expr) (names : List String) (inputs : List Schema) :
    ((projection exprs names).fields inputs).rename naming =
      ⟨List.zipWith (fun type name => ⟨name, type⟩) (exprs.map (·.type)) (names.map naming)⟩ := by
  rw [List.zipWith_map]
  simp only [fields, Schema.rename, List.map_zipWith, Field.rename]

/-- Operators of one form make schemas of one form over such schemas. -/
theorem rename_fields {left right : Operator} {lefts rights : List Schema}
    (operators : left.form naming = right.form naming)
    (schemas : lefts.map (·.rename naming) = rights.map (·.rename naming)) :
    (left.fields lefts).rename naming = (right.fields rights).rename naming := by
  cases left with
  | tableScan table fields =>
      cases right with
      | tableScan other otherFields =>
          rcases Operator.tableScan.inj operators with ⟨_, rfl⟩
          rfl
      | _ => exact Operator.noConfusion operators
  | aggregate grouping =>
      cases right with
      | aggregate other =>
          rcases Operator.aggregate.inj operators with rfl
          match lefts, rights, schemas with
          | [], [], _ => rfl
          | left :: _, right :: _, schemas =>
              have first := congrArg Schema.fields (List.cons.inj schemas).1
              simp only [Schema.rename] at first
              simp only [fields, Schema.rename, List.map_append, List.map_take, first]
      | _ => exact Operator.noConfusion operators
  | projection exprs names =>
      cases right with
      | projection others otherNames =>
          rcases Operator.projection.inj operators with ⟨sameExprs, sameNames⟩
          have types := congrArg (List.map (·.type)) sameExprs
          simp only [List.map_map, Function.comp_def, Expr.type_canonical] at types
          rw [rename_fields_projection, rename_fields_projection, types, sameNames]
      | _ => exact Operator.noConfusion operators
  | join kind condition =>
      cases right with
      | join otherKind other =>
          match lefts, rights, schemas with
          | [], [], _ => rfl
          | [_], [_], _ => rfl
          | [_], _ :: _ :: _, schemas => simp at schemas
          | _ :: _ :: _, [_], schemas => simp at schemas
          | left :: next :: _, right :: other :: _, schemas =>
              have first : left.rename naming = right.rename naming := (List.cons.inj schemas).1
              have second : next.rename naming = other.rename naming :=
                (List.cons.inj (List.cons.inj schemas).2).1
              simp only [fields]
              rw [Schema.rename_join, Schema.rename_join, first, second]
      | _ => exact Operator.noConfusion operators
  | filter predicate =>
      cases right with
      | filter other =>
          match lefts, rights, schemas with
          | [], [], _ => rfl
          | left :: _, right :: _, schemas => exact (List.cons.inj schemas).1
      | _ => exact Operator.noConfusion operators
  | limit count =>
      cases right with
      | limit other =>
          match lefts, rights, schemas with
          | [], [], _ => rfl
          | left :: _, right :: _, schemas => exact (List.cons.inj schemas).1
      | _ => exact Operator.noConfusion operators

theorem eq_aggregate_of_form {operator : Operator} {grouping : Aggregate}
    (same : operator.form naming = .aggregate grouping) : operator = .aggregate grouping := by
  cases operator with
  | aggregate other => exact same
  | projection _ _ | join _ _ | tableScan _ _ | filter _ | limit _ =>
      exact Operator.noConfusion same

theorem hasDistinctCall_form (operator : Operator) :
    (operator.form naming).hasDistinctCall = operator.hasDistinctCall := by
  cases operator <;> rfl

end Operator

namespace PlanNode

mutual
/-- The plan with other names of columns. -/
def rename (naming : String → String) : PlanNode → PlanNode
  | ⟨key, id, operator, inputs, schema⟩ =>
    ⟨key, id, operator.rename naming, renameAll naming inputs, schema.rename naming⟩

/-- Several plans with other names of columns. -/
def renameAll (naming : String → String) : List PlanNode → List PlanNode
  | [] => []
  | node :: rest => rename naming node :: renameAll naming rest
end

mutual
/-- What remains of a plan when names are exchanged and equality is all that counts. -/
def form (naming : String → String) : PlanNode → PlanNode
  | ⟨_, _, operator, inputs, schema⟩ =>
    ⟨0, 0, operator.form naming, formAll naming inputs, schema.rename naming⟩

/-- What remains of several plans. -/
def formAll (naming : String → String) : List PlanNode → List PlanNode
  | [] => []
  | node :: rest => form naming node :: formAll naming rest
end

@[simp] theorem renameAll_eq_map (nodes : List PlanNode) :
    renameAll naming nodes = nodes.map (rename naming) := by
  induction nodes with
  | nil => rfl
  | cons node rest ih => simp [renameAll, ih]

@[simp] theorem formAll_eq_map (nodes : List PlanNode) :
    formAll naming nodes = nodes.map (form naming) := by
  induction nodes with
  | nil => rfl
  | cons node rest ih => simp [formAll, ih]

theorem form_eq (node : PlanNode) :
    node.form naming =
      ⟨0, 0, node.operator.form naming, node.inputs.map (form naming), node.schema.rename naming⟩ := by
  cases node
  simp [form]

theorem rename_self (plan : PlanNode) : plan.rename (fun name => name) = plan := by
  induction plan using PlanNode.induct with
  | node key id operator inputs schema ih =>
      have unchanged : inputs.map (rename fun name => name) = inputs := by
        apply map_eq_self
        exact ih
      simp [rename, unchanged]

/-- Input lists are compared by their forms, once this is known of the inputs. -/
theorem beqAll_iff_of_members {lefts : List PlanNode}
    (members : ∀ left ∈ lefts, ∀ right : PlanNode,
      (left.rename naming).beq (right.rename naming) = true ↔ left.form naming = right.form naming)
    (rights : List PlanNode) :
    beqAll (lefts.map (rename naming)) (rights.map (rename naming)) = true ↔
      lefts.map (form naming) = rights.map (form naming) := by
  induction lefts generalizing rights with
  | nil => cases rights <;> simp [beqAll]
  | cons left lefts ih =>
      cases rights with
      | nil => simp [beqAll]
      | cons right rights =>
          have headIff := members left List.mem_cons_self right
          have tailIff := ih (fun member membership =>
            members member (List.mem_cons_of_mem _ membership)) rights
          simp only [List.map_cons, beqAll, Bool.and_eq_true, List.cons.injEq, headIff, tailIff]

/-- Plans are equal after an exchange of names when their forms are the same. -/
theorem rename_beq_iff (left right : PlanNode) :
    (left.rename naming == right.rename naming) = true ↔ left.form naming = right.form naming := by
  change (left.rename naming).beq (right.rename naming) = true ↔ _
  induction left using PlanNode.induct generalizing right with
  | node key id operator inputs schema ih =>
      cases right with
      | mk otherKey otherId other others otherSchema =>
          simp only [rename, renameAll_eq_map, beq, form, formAll_eq_map, Bool.and_eq_true,
            Operator.beq_iff, Operator.canonical_rename, beqAll_iff_of_members ih, beq_iff_eq,
            mk.injEq, true_and, and_assoc]

theorem beq_iff (left right : PlanNode) :
    (left == right) = true ↔ left.form (fun name => name) = right.form (fun name => name) := by
  have renamed := @rename_beq_iff (fun name => name) left right
  rwa [rename_self, rename_self] at renamed

instance : EquivBEq PlanNode := equivBEq_of_image _ beq_iff

/-- The form of an assembled node is made of its operator and of the forms of its inputs. -/
theorem form_assemble {key id otherKey otherId : Nat} {operator other : Operator}
    {lefts rights : List PlanNode} (operators : operator.form naming = other.form naming)
    (forms : lefts.map (form naming) = rights.map (form naming)) :
    (assemble key id operator lefts).form naming =
      (assemble otherKey otherId other rights).form naming := by
  have schemas : (lefts.map (·.schema)).map (·.rename naming) =
      (rights.map (·.schema)).map (·.rename naming) := by
    have schemas := congrArg (List.map (·.schema)) forms
    simpa only [List.map_map, Function.comp_def, form_eq] using schemas
  rw [form_eq, form_eq (assemble otherKey otherId other rights)]
  simp only [assemble, operators, forms, Operator.rename_fields operators schemas]

end PlanNode

end QueryPlan
