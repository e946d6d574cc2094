/-!
# Column types

The four types that a column or a scalar value can have, and their written
names. A written name determines its type (`ScalarType.ofName_name`).
-/

namespace QueryPlan

/-- A text that names no member of an enumeration. -/
structure UnknownName where
  text : String
  deriving DecidableEq, Repr

/-- What a reader of names is told about a name that stands for nothing. -/
def UnknownName.message (_ : UnknownName) : String :=
  "Matching variant not found"

/-- The type of a column or of a scalar value. -/
inductive ScalarType where
  | boolean
  | int64
  | float64
  | utf8
  deriving DecidableEq, Repr

namespace ScalarType

/-- The written name of a type. -/
def name : ScalarType → String
  | boolean => "Boolean"
  | int64 => "Int64"
  | float64 => "Float64"
  | utf8 => "Utf8"

/-- Every type. -/
def all : List ScalarType := [boolean, int64, float64, utf8]

/-- The type with exactly this name; case matters. -/
def ofName (text : String) : Except UnknownName ScalarType :=
  match all.find? (·.name == text) with
  | some type => .ok type
  | none => .error ⟨text⟩

@[simp] theorem ofName_name (type : ScalarType) :
    ofName type.name = .ok type := by
  cases type <;> rfl

end ScalarType

end QueryPlan
