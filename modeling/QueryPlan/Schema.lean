import QueryPlan.ScalarType

/-!
# Schemas

A schema is the ordered list of fields of a row. Two schemas are compatible
when they have the same types position by position, whatever the names
(`Schema.sameTypes_iff`).
-/

namespace QueryPlan

/-- One column of a row: its name and its type. -/
structure Field where
  name : String
  type : ScalarType
  deriving DecidableEq, Repr

/-- A field is written `name: Type`. -/
def Field.text (field : Field) : String :=
  field.name ++ ": " ++ field.type.name

/-- The ordered fields of a row. -/
structure Schema where
  fields : List Field
  deriving DecidableEq, Repr

namespace Schema

/-- Number of fields. -/
def width (schema : Schema) : Nat := schema.fields.length

/-- The field at a position, if there is one. -/
def field? (schema : Schema) (index : Nat) : Option Field := schema.fields[index]?

def isEmpty (schema : Schema) : Bool := schema.fields.isEmpty

/-- Names of the fields, in order. -/
def names (schema : Schema) : List String := schema.fields.map (·.name)

/-- Types of the fields, in order. -/
def types (schema : Schema) : List ScalarType := schema.fields.map (·.type)

/-- The fields of `left` followed by those of `right`. -/
def join (left right : Schema) : Schema := ⟨left.fields ++ right.fields⟩

/-- Same width and same type at every position. -/
def sameTypes (left right : Schema) : Bool := left.types == right.types

/-- A schema is written `[name: Type, name: Type]`. -/
def text (schema : Schema) : String :=
  "[" ++ String.intercalate ", " (schema.fields.map Field.text) ++ "]"

theorem sameTypes_iff {left right : Schema} :
    left.sameTypes right = true ↔ left.types = right.types := by
  simp [sameTypes]

@[simp] theorem width_join (left right : Schema) :
    (left.join right).width = left.width + right.width := by
  simp [width, join]

@[simp] theorem types_join (left right : Schema) :
    (left.join right).types = left.types ++ right.types := by
  simp [types, join]

@[simp] theorem length_types (schema : Schema) : schema.types.length = schema.width := by
  simp [types, width]

theorem field?_join_left {left right : Schema} {index : Nat} (bound : index < left.width) :
    (left.join right).field? index = left.field? index := by
  simp [field?, join, List.getElem?_append_left (show index < left.fields.length from bound)]

@[simp] theorem field?_join_right (left right : Schema) (index : Nat) :
    (left.join right).field? (left.width + index) = right.field? index := by
  simp [field?, join, width, List.getElem?_append_right]

end Schema

end QueryPlan
