import QueryPlan.Rule.Firing

/-!
# Selecting distinct rows

`SELECT DISTINCT` over some columns of a node: a projection to these columns and
an aggregate that groups by all of them. Columns are asked for as a number of
group fields followed by some arguments. They are gathered one after the other,
each at its first occurrence, so that the group fields keep their places.
-/

namespace QueryPlan

namespace DistinctSelection

/-- The columns gathered so far, with an expression and a name for each. A column
is looked up by the place at which it stands. -/
structure Gathered where
  ordinals : List Nat
  exprs : List Expr
  names : List String

namespace Gathered

def empty : Gathered := ⟨[], [], []⟩

/-- Gathers one more column, unless it is there already. -/
def add (input : Schema) (gathered : Gathered) (ordinal : Nat) : Except PlanError Gathered :=
  if ordinal ∈ gathered.ordinals then
    .ok gathered
  else
    match input.field? ordinal with
    | some field =>
      .ok ⟨gathered.ordinals ++ [ordinal], gathered.exprs ++ [.column ordinal field.type],
        gathered.names ++ [field.name]⟩
    | none => .error (.malformed (.selectionOutOfRange ordinal input.width))

/-- Gathers some columns in a row, from `first` on. -/
def addRange (input : Schema) (first : Nat) : Nat → Gathered → Except PlanError Gathered
  | 0, gathered => .ok gathered
  | count + 1, gathered => do addRange input (first + 1) count (← gathered.add input first)

/-- Gathers the group fields and then the arguments. -/
def ofInput (input : Schema) (groupCount : Nat) (args : List Nat) : Except PlanError Gathered := do
  args.foldlM (add input) (← addRange input 0 groupCount empty)

end Gathered

end DistinctSelection

namespace Firing

/-- Builds `SELECT DISTINCT` of the group fields and the arguments. Gives the
node and the columns of `input` that stand in its fields. -/
def selectDistinct (input : PlanNode) (groupCount : Nat) (args : List Nat) :
    RuleStep (PlanNode × List Nat) := do
  let gathered ← Step.ofExcept (DistinctSelection.Gathered.ofInput input.schema groupCount args)
  let projection ← create (.projection gathered.exprs gathered.names) [input]
  let node ← create (.aggregate ⟨gathered.exprs.length, []⟩) [projection]
  return (node, gathered.ordinals)

end Firing

end QueryPlan
