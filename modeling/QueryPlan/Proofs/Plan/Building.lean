import Mathlib.Data.List.Forall2
import QueryPlan.Builder
import QueryPlan.Proofs.Equality.Form
import QueryPlan.Proofs.Plan.Validity

/-!
# Histories of a builder

A builder is called any number of times, and some of its calls fail. A failed
call keeps the plan that was built so far, and at most uses up an id. Since
nothing but the ids of nodes depends on the ids used before, a history without
its failed calls comes to equal plans: `Call.Effect` lists what a call can do,
and both histories are followed side by side.
-/

namespace QueryPlan

namespace PlanNode

theorem id_of_build {key id : Nat} {operator : Operator} {inputs : List PlanNode} {node : PlanNode}
    (accepted : build key id operator inputs = .ok node) : node.id = id :=
  congrArg PlanNode.id (typed_of_build accepted).2

/-- Lists of equal plans have the same forms. -/
theorem map_form_of_forall₂ {lefts rights : List PlanNode}
    (equal : List.Forall₂ (fun left right => (left == right) = true) lefts rights) :
    lefts.map (form fun name => name) = rights.map (form fun name => name) := by
  induction equal with
  | nil => rfl
  | cons first _ ih => rw [List.map_cons, List.map_cons, (beq_iff _ _).mp first, ih]

/-- Equal inputs are accepted alike, and give equal nodes. -/
theorem build_of_beq {key id : Nat} {operator : Operator} {inputs others : List PlanNode}
    {node : PlanNode} (otherKey otherId : Nat)
    (equal : List.Forall₂ (fun left right => (left == right) = true) inputs others)
    (accepted : build key id operator inputs = .ok node) :
    ∃ other, build otherKey otherId operator others = .ok other ∧ (node == other) = true := by
  have forms := map_form_of_forall₂ equal
  have schemas : inputs.map (·.schema) = others.map (·.schema) := by
    have renamed := congrArg (List.map (·.schema)) forms
    simpa only [List.map_map, Function.comp_def, form_eq, Schema.rename_self] using renamed
  obtain ⟨typed, assembled⟩ := typed_of_build accepted
  rw [← map_types_schema, schemas, map_types_schema] at typed
  refine ⟨_, (build_of_typed typed).1, ?_⟩
  rw [beq_iff, assembled]
  exact form_assemble rfl forms

end PlanNode

namespace PlanBuilder

/-- What a builder is called for. -/
inductive Call where
  /-- Takes a step; the new node gets the identity `key`. -/
  | add (key : Nat) (step : Step)
  /-- Takes the plan out. -/
  | take

namespace Call

/-- Carries out a call. Gives the plan if it is taken out. -/
def perform (builder : PlanBuilder) : Call → Except PlanError (Option PlanNode) × PlanBuilder
  | add key step =>
    let (outcome, after) := builder.add key step
    (outcome.map fun _ => none, after)
  | take =>
    let (outcome, after) := builder.take
    (outcome.map some, after)

/-- Whether a call comes to the construction of a node: a scan always does, and
another step if there is a plan for it to stand on. -/
def constructs (builder : PlanBuilder) : Call → Bool
  | add _ (.scan ..) => true
  | add .. => builder.root?.isSome
  | take => false

/-- A step comes to the construction of a node when there are inputs for it. -/
theorem constructs_add (key : Nat) (step : Step) (builder : PlanBuilder) :
    (add key step).constructs builder = (step.inputs builder.root?).isOk := by
  rcases builder with ⟨root?, nextId⟩
  cases step <;> cases root? <;> rfl

/-- What a call can do: its outcome, and the builder after it. -/
inductive Effect (before : PlanBuilder) :
    Call → Except PlanError (Option PlanNode) → PlanBuilder → Prop
  | unrooted {key : Nat} {step : Step} {error : PlanError} :
      step.inputs before.root? = .error error → Effect before (.add key step) (.error error) before
  | rejected {key : Nat} {step : Step} {inputs : List PlanNode} {error : PlanError} :
      step.inputs before.root? = .ok inputs →
      PlanNode.build key before.nextId step.operator inputs = .error error →
      Effect before (.add key step) (.error error) ⟨before.root?, before.nextId + 1⟩
  | added {key : Nat} {step : Step} {inputs : List PlanNode} {node : PlanNode} :
      step.inputs before.root? = .ok inputs →
      PlanNode.build key before.nextId step.operator inputs = .ok node →
      Effect before (.add key step) (.ok none) ⟨some node, before.nextId + 1⟩
  | empty {error : PlanError} : before.root? = none → Effect before .take (.error error) before
  | taken {root : PlanNode} : before.root? = some root →
      Effect before .take (.ok (some root)) ⟨none, before.nextId⟩

theorem effect_perform (call : Call) (builder : PlanBuilder) :
    call.Effect builder (call.perform builder).1 (call.perform builder).2 := by
  cases call with
  | add key step =>
      rw [perform, PlanBuilder.add]
      cases rooted : step.inputs builder.root? with
      | error error => exact .unrooted rooted
      | ok inputs =>
          simp only
          cases built : PlanNode.build key builder.nextId step.operator inputs with
          | error error => exact .rejected rooted built
          | ok node => exact .added rooted built
  | take =>
      rw [perform, PlanBuilder.take]
      cases root : builder.root? with
      | none => exact .empty root
      | some plan => exact .taken root

namespace Effect

variable {before after : PlanBuilder} {call : Call} {outcome : Except PlanError (Option PlanNode)}

/-- A call that fails keeps the plan. -/
theorem root?_of_failed (effect : call.Effect before outcome after)
    (failed : outcome.isOk = false) : after.root? = before.root? := by
  cases effect with
  | unrooted _ | rejected _ _ | empty _ => rfl
  | added _ _ | taken _ => exact Bool.noConfusion failed

/-- A call uses an id when it comes to the construction of a node. -/
theorem nextId_eq (effect : call.Effect before outcome after) :
    after.nextId = before.nextId + if call.constructs before then 1 else 0 := by
  cases effect with
  | unrooted unrooted => rw [constructs_add, unrooted]; rfl
  | rejected rooted _ | added rooted _ => rw [constructs_add, rooted]; rfl
  | empty _ | taken _ => rfl

end Effect

end Call

/-- A call in a history: the builder before it, its outcome, and the builder after it. -/
structure Entry where
  before : PlanBuilder
  call : Call
  outcome : Except PlanError (Option PlanNode)
  after : PlanBuilder

namespace Entry

def succeeded (entry : Entry) : Bool := entry.outcome.isOk

/-- The plan that a call takes out. -/
def taken? (entry : Entry) : Option PlanNode :=
  match entry.outcome with
  | .ok plan? => plan?
  | .error _ => none

theorem taken?_eq_some_iff {entry : Entry} {plan : PlanNode} :
    entry.taken? = some plan ↔ entry.outcome = .ok (some plan) := by
  rw [taken?]
  cases entry.outcome <;> simp

/-- The node that a call puts on top of the plan. -/
def created? (entry : Entry) : Option PlanNode :=
  match entry.call, entry.outcome with
  | .add .., .ok _ => entry.after.root?
  | _, _ => none

/-- A node that a call creates has the id that the call uses. -/
theorem created?_eq {before after : PlanBuilder} {call : Call}
    {outcome : Except PlanError (Option PlanNode)} (effect : call.Effect before outcome after) :
    (⟨before, call, outcome, after⟩ : Entry).created? = none ∨
      ∃ node, (⟨before, call, outcome, after⟩ : Entry).created? = some node ∧
        node.id = before.nextId ∧ after.nextId = before.nextId + 1 := by
  cases effect with
  | unrooted _ | rejected _ _ | empty _ | taken _ => exact .inl rfl
  | added _ built => exact .inr ⟨_, rfl, PlanNode.id_of_build built, rfl⟩

end Entry

/-- Carries out calls one after the other, and goes on after failures. -/
def history (builder : PlanBuilder) : List Call → List Entry
  | [] => []
  | call :: rest =>
    let (outcome, after) := call.perform builder
    ⟨builder, call, outcome, after⟩ :: history after rest

theorem map_call_history (builder : PlanBuilder) (calls : List Call) :
    (history builder calls).map (·.call) = calls := by
  induction calls generalizing builder with
  | nil => rfl
  | cons call rest ih => exact congrArg (call :: ·) (ih _)

/-- Every entry of a history is what its call does. -/
theorem effect_of_mem_history {builder : PlanBuilder} {calls : List Call} {entry : Entry}
    (member : entry ∈ history builder calls) :
    entry.call.Effect entry.before entry.outcome entry.after := by
  induction calls generalizing builder with
  | nil => simp [history] at member
  | cons call rest ih =>
      rcases List.mem_cons.mp member with rfl | later
      · exact call.effect_perform builder
      · exact ih later

/-- The nodes that a history creates are numbered upwards, from the next id on. -/
theorem ids_created (builder : PlanBuilder) (calls : List Call) :
    let ids := ((history builder calls).filterMap (·.created?)).map (·.id)
    ids.Pairwise (· < ·) ∧ ∀ id ∈ ids, builder.nextId ≤ id := by
  induction calls generalizing builder with
  | nil => exact ⟨.nil, fun _ member => nomatch member⟩
  | cons call rest ih =>
      have effect := call.effect_perform builder
      obtain ⟨sorted, above⟩ := ih (call.perform builder).2
      have later : builder.nextId ≤ (call.perform builder).2.nextId := by
        rw [effect.nextId_eq]
        exact Nat.le_add_right _ _
      simp only [history]
      rcases Entry.created?_eq effect with none | ⟨node, created, id, nextId⟩
      · rw [List.filterMap_cons_none none]
        exact ⟨sorted, fun id member => Nat.le_trans later (above id member)⟩
      · rw [List.filterMap_cons_some created, List.map_cons, List.pairwise_cons,
          List.forall_mem_cons, id]
        refine ⟨⟨fun other member => ?_, sorted⟩, Nat.le_refl _, fun other member =>
          Nat.le_trans later (above other member)⟩
        have reached := above other member
        rw [nextId] at reached
        exact reached

/-- Whether two steps are the same, but for the plan that a join reads on the
right, which may be an equal one. -/
inductive Step.Alike : Step → Step → Prop
  | same (step : Step) : Alike step step
  | join {kind : JoinKind} {condition : Expr} {right other : PlanNode} :
      (right == other) = true → Alike (.join kind condition right) (.join kind condition other)

/-- Whether two calls are the same, whatever the identities of the new nodes. -/
inductive Call.Alike : Call → Call → Prop
  | add {key otherKey : Nat} {step other : Step} :
      step.Alike other → Alike (.add key step) (.add otherKey other)
  | take : Alike .take .take

/-- Whether two builders hold equal plans. -/
def Alike (builder other : PlanBuilder) : Prop :=
  Option.Rel (fun left right => (left == right) = true) builder.root? other.root?

theorem Step.Alike.operator_eq {step other : Step} (alike : step.Alike other) :
    step.operator = other.operator := by
  cases alike <;> rfl

/-- Alike steps on equal plans have equal inputs. -/
theorem Step.Alike.inputs {step other : Step} (alike : step.Alike other)
    {builder otherBuilder : PlanBuilder} (builders : builder.Alike otherBuilder)
    {inputs : List PlanNode} (rooted : step.inputs builder.root? = .ok inputs) :
    ∃ others, other.inputs otherBuilder.root? = .ok others ∧
      List.Forall₂ (fun left right => (left == right) = true) inputs others := by
  rcases builder with ⟨root?, nextId⟩
  rcases otherBuilder with ⟨otherRoot?, otherNextId⟩
  cases builders with
  | none =>
      cases alike with
      | same step =>
          cases step with
          | scan table fields => cases rooted; exact ⟨[], rfl, .nil⟩
          | filter | projection | aggregate | limit | join => cases rooted
      | join rights => cases rooted
  | some roots =>
      cases alike with
      | same step =>
          cases step with
          | scan table fields => cases rooted; exact ⟨_, rfl, .nil⟩
          | filter | projection | aggregate | limit =>
              cases rooted
              exact ⟨_, rfl, .cons roots .nil⟩
          | join kind condition right =>
              cases rooted
              exact ⟨_, rfl, .cons roots (.cons ((PlanNode.beq_iff _ _).mpr rfl) .nil)⟩
      | join rights => cases rooted; exact ⟨_, rfl, .cons roots (.cons rights .nil)⟩

/-- On builders with equal plans, a call succeeds where an alike call does. -/
theorem Call.Alike.perform {call other : Call} (alike : call.Alike other)
    {builder otherBuilder : PlanBuilder} (builders : builder.Alike otherBuilder)
    {plan? : Option PlanNode} (succeeded : (call.perform builder).1 = .ok plan?) :
    ∃ otherPlan?, (other.perform otherBuilder).1 = .ok otherPlan? ∧
      Option.Rel (fun left right => (left == right) = true) plan? otherPlan? ∧
      (call.perform builder).2.Alike (other.perform otherBuilder).2 := by
  have effect := call.effect_perform builder
  generalize call.perform builder = performed at *
  rcases performed with ⟨outcome, after⟩
  subst succeeded
  cases effect with
  | added rooted built =>
      cases alike with
      | @add key otherKey step otherStep steps =>
          obtain ⟨others, otherRooted, inputs⟩ := steps.inputs builders rooted
          obtain ⟨node, otherBuilt, nodes⟩ :=
            PlanNode.build_of_beq otherKey otherBuilder.nextId inputs built
          rw [steps.operator_eq] at otherBuilt
          simp only [Call.perform, PlanBuilder.add, otherRooted, otherBuilt]
          exact ⟨none, rfl, .none, .some nodes⟩
  | taken root =>
      cases alike with
      | take =>
          rw [PlanBuilder.Alike, root] at builders
          generalize rooted : otherBuilder.root? = otherRoot? at builders
          cases builders with
          | some plans =>
              simp only [Call.perform, PlanBuilder.take, rooted]
              exact ⟨_, rfl, .some plans, .none⟩

/-- A history without its failed calls, on a builder with an equal plan: all its
calls succeed, and the plans it takes out are equal. -/
theorem history_alike {builder other : PlanBuilder} (builders : builder.Alike other)
    {calls kept : List Call}
    (alike : List.Forall₂ Call.Alike
      (((history builder calls).filter (·.succeeded)).map (·.call)) kept) :
    (∀ entry ∈ history other kept, entry.succeeded = true) ∧
      List.Forall₂ (fun left right => (left == right) = true)
        ((history builder calls).filterMap (·.taken?))
        ((history other kept).filterMap (·.taken?)) := by
  induction calls generalizing builder other kept with
  | nil =>
      obtain rfl := List.forall₂_nil_left_iff.mp alike
      exact ⟨fun _ member => (List.not_mem_nil member).elim, .nil⟩
  | cons call rest ih =>
      have effect := call.effect_perform builder
      rcases performed : call.perform builder with ⟨outcome, after⟩
      simp only [history, performed] at alike effect ⊢
      cases outcome with
      | error error =>
          -- The plan is still equal to that of the builder which skips the call.
          have kept : after.Alike other := by rwa [Alike, effect.root?_of_failed rfl]
          exact ih kept alike
      | ok plan? =>
          obtain ⟨otherCall, keptRest, calls, later, rfl⟩ := List.forall₂_cons_left_iff.mp alike
          obtain ⟨otherPlan?, otherPerformed, plans, builders⟩ :=
            Call.Alike.perform calls builders (congrArg Prod.fst performed)
          rw [performed] at builders
          obtain ⟨succeeded, equal⟩ := ih builders later
          refine ⟨List.forall_mem_cons.mpr ⟨congrArg Except.isOk otherPerformed, succeeded⟩, ?_⟩
          simp only [history, List.filterMap_cons, Entry.taken?, otherPerformed]
          cases plans with
          | none => exact equal
          | some plans => exact .cons plans equal

instance : Std.Refl Call.Alike where
  refl call := by
    cases call with
    | add key step => exact .add (.same step)
    | take => exact .take

theorem Alike.refl (builder : PlanBuilder) : builder.Alike builder := by
  rcases builder with ⟨root?, nextId⟩
  cases root? with
  | none => exact .none
  | some root => exact .some ((PlanNode.beq_iff _ _).mpr rfl)

/-- A failed call keeps the plan, and a call uses an id exactly when it comes to
the construction of a node; the created nodes are numbered upwards. Without the
failed calls, all calls succeed, and the plans that are taken out are equal,
also when joins read other plans that are equal. -/
theorem history_without_failures (builder : PlanBuilder) (calls : List Call) :
    let entries := history builder calls
    entries.map (·.call) = calls ∧
      (∀ entry ∈ entries, entry.succeeded = false → entry.after.root? = entry.before.root?) ∧
      (∀ entry ∈ entries, entry.after.nextId =
        entry.before.nextId + if entry.call.constructs entry.before then 1 else 0) ∧
      ((entries.filterMap (·.created?)).map (·.id)).Pairwise (· < ·) ∧
      ∀ kept, List.Forall₂ Call.Alike ((entries.filter (·.succeeded)).map (·.call)) kept →
        (∀ entry ∈ history builder kept, entry.succeeded = true) ∧
          List.Forall₂ (fun left right => (left == right) = true) (entries.filterMap (·.taken?))
            ((history builder kept).filterMap (·.taken?)) :=
  ⟨map_call_history builder calls,
    fun _ member failed => (effect_of_mem_history member).root?_of_failed failed,
    fun _ member => (effect_of_mem_history member).nextId_eq, (ids_created builder calls).1,
    fun _ alike => history_alike (Alike.refl builder) alike⟩

end PlanBuilder

namespace Sample

/-- Rows that a builder joins with the plan on its left. -/
def prices : PlanNode := .assemble 7 0 (.tableScan "prices" ⟨[⟨"price", .float64⟩]⟩) []

/-- Two plans with four failures: no input, too many groups, and two times no plan to take. -/
def calls : List PlanBuilder.Call :=
  [.add 0 (.limit 1), .add 1 (.scan "items" ⟨[⟨"item", .utf8⟩]⟩), .add 2 (.aggregate 2 []),
    .add 3 (.limit 5), .take, .take, .add 4 (.scan "items" ⟨[⟨"item", .utf8⟩]⟩),
    .add 5 (.join .inner (.literal (.boolean true)) prices), .take, .take]

end Sample

namespace PlanBuilder

/-- `history_without_failures` for two plans, and the calls that succeed for them. -/
theorem history_without_failures_calls :
    let entries := history .empty Sample.calls
    entries.map (·.succeeded) =
        [false, true, false, true, true, false, true, true, true, false] ∧
      ((entries.filterMap (·.created?)).map (·.id)) = [0, 2, 3, 4] ∧
      (entries.map (·.after.nextId)) = [0, 1, 2, 3, 3, 3, 4, 5, 5, 5] ∧
      (∀ entry ∈ history .empty ((entries.filter (·.succeeded)).map (·.call)),
        entry.succeeded = true) ∧
      List.Forall₂ (fun left right => (left == right) = true) (entries.filterMap (·.taken?))
        ((history .empty ((entries.filter (·.succeeded)).map (·.call))).filterMap (·.taken?)) := by
  obtain ⟨_, _, _, _, reduced⟩ := history_without_failures .empty Sample.calls
  obtain ⟨succeeded, equal⟩ := reduced _ (List.forall₂_refl _)
  refine ⟨by decide +kernel, by decide +kernel, by decide +kernel, succeeded, equal⟩

end PlanBuilder

end QueryPlan
