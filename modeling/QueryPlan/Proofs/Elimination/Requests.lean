import Mathlib.Algebra.GroupWithZero.Nat
import QueryPlan.Proofs.Elimination.Selection

/-!
# Requests to a firing

A rule acts by requests to its firing, and may go on after a request has failed.
Whatever it asks for, in whatever order, the slot for the replacement is written
once: it holds the first replacement that was proposed and fits the bound root,
and every further one that fits leaves a warning and nothing else. The ids that
were used can be counted from the requests and their outcomes.

`Effect` says what one request does to a firing, and the run follows by
induction on the list of requests.
-/

namespace QueryPlan

/-- A step whose value is only put into another form has the same effect. -/
theorem Step.perform_bind_pure {State α β : Type} (step : Step State α) (image : α → β)
    (state : State) :
    perform (do return image (← step)) state =
      ((perform step state).1.map image, (perform step state).2) := by
  rw [perform_bind]
  rcases perform step state with ⟨result, later⟩
  cases result <;> rfl

/-- Ids that the elimination of the distinct calls of an operator uses. -/
def Operator.eliminationIds : Operator → Nat
  | .aggregate grouping =>
    if grouping.SingleList then 3 else 4 * grouping.argumentLists.length + 2
  | _ => 0

theorem Operator.eliminationIds_aggregate (grouping : Aggregate) :
    (Operator.aggregate grouping).eliminationIds = (Operator.aggregate grouping).growth + 1 := by
  rw [eliminationIds, growth, Aggregate.growth]
  split <;> rfl

namespace Firing

/-- Records of the firing that warn. -/
def warnings (firing : Firing) : List Event := firing.log.filter (·.level == .warn)

/-- What can be asked of a firing. -/
inductive Request where
  | root
  | operand (index : Nat)
  | create (operator : Operator) (inputs : List PlanNode)
  | selectDistinct (input : PlanNode) (groupCount : Nat) (args : List Nat)
  | propose (replacement : PlanNode)
  /-- To do all that the elimination of distinct calls does. -/
  | eliminate

namespace Request

/-- Carries out a request. Gives the nodes that are asked for. -/
def step : Request → RuleStep (List PlanNode)
  | root => do return [← Firing.root]
  | operand index => do return [← Firing.operand index]
  | create operator inputs => do return [← Firing.create operator inputs]
  | selectDistinct input groupCount args => do
    return [(← Firing.selectDistinct input groupCount args).1]
  | propose replacement => do
    Firing.propose replacement
    return []
  | eliminate => do
    DistinctElimination.action
    return []

/-- The replacement that a request proposes, if it has the types of the bound
root. The elimination proposes what firing the rule by itself would give. -/
def offer? (firing : Firing) : Request → Option PlanNode
  | propose replacement =>
    if firing.binding.root.schema.sameTypes replacement.schema then some replacement else none
  | eliminate =>
    match (Rule.distinctElimination.fire firing.binding firing.nextId firing.nextKey).1 with
    | .ok replacement? => replacement?
    | .error _ => none
  | _ => none

/-- Ids that a request uses, depending on its outcome. -/
def idCount (root : PlanNode) : Request → Except Failure (List PlanNode) → Nat
  | create .., _ => 1
  | selectDistinct .., .ok _ => 2
  | eliminate, .ok _ => root.operator.eliminationIds
  | _, _ => 0

end Request

/-- What the proposal of a fitting replacement does to a firing. -/
structure Proposes (replacement : PlanNode) (before after : Firing) : Prop where
  binding : after.binding = before.binding
  nextId : after.nextId = before.nextId
  proposal : after.proposal = before.proposal.or (some replacement)
  warnings : after.warnings = before.warnings ++
    if before.proposal.isSome then [.furtherReplacement before.binding.root.operator] else []

/-- What a request does to a firing. -/
structure Effect (request : Request) (before : Firing) (outcome : Except Failure (List PlanNode))
    (after : Firing) : Prop where
  binding : after.binding = before.binding
  nextId : after.nextId = before.nextId + request.idCount before.binding.root outcome
  proposal : after.proposal = before.proposal.or (request.offer? before)
  warnings : after.warnings = before.warnings ++
    if before.proposal.isSome then
      (request.offer? before).toList.map fun _ =>
        .furtherReplacement before.binding.root.operator
    else []

variable {request : Request} {firing after : Firing}

/-- A request that proposes nothing that fits can only use ids. -/
theorem Effect.of_advance {outcome : Except Failure (List PlanNode)} (count : Nat)
    (none : request.offer? firing = none) (advanced : after = firing.advance count)
    (used : request.idCount firing.binding.root outcome = count) :
    Effect request firing outcome after where
  binding := by rw [advanced]; rfl
  nextId := by rw [advanced, used]; rfl
  proposal := by rw [advanced, none, Option.or_none]; rfl
  warnings := by
    rw [advanced, none]
    simp [advance, Firing.warnings]

/-- A proposal that fits goes through, whether or not the slot is filled. -/
theorem perform_propose_fitting {replacement : PlanNode}
    (types : firing.binding.root.types = replacement.types) :
    ∃ after, Step.perform (propose replacement) firing = (.ok (), after) ∧
      Proposes replacement firing after := by
  cases slot : firing.proposal with
  | none =>
      refine ⟨_, DistinctElimination.perform_propose types slot, rfl, rfl, ?_, ?_⟩
      · rw [slot]; rfl
      · simp [warnings, slot]
  | some first =>
      refine ⟨_, DistinctElimination.perform_propose_further types slot, rfl, rfl, ?_, ?_⟩
      · rw [slot]; rfl
      · simp [warnings, slot, Event.level]

/-- A proposal that does not fit breaks off, whether or not the slot is filled. -/
theorem perform_propose_misfit {replacement : PlanNode}
    (misfit : firing.binding.root.schema.sameTypes replacement.schema = false) :
    Step.perform (propose replacement) firing =
      (.error (.violation
        (.incompatibleReplacement replacement.schema firing.binding.root.schema)), firing) := by
  simp only [propose, Step.perform_bind, Step.perform_get, misfit, Bool.not_false, if_true]
  rfl

/-- A selection fails without a trace, or uses two ids. -/
theorem perform_selectDistinct (input : PlanNode) (groupCount : Nat) (args : List Nat)
    (firing : Firing) :
    let outcome := Step.perform (selectDistinct input groupCount args) firing
    (∃ failure, outcome = (.error failure, firing)) ∨
      ∃ selection, outcome = (.ok selection, firing.advance 2) := by
  intro outcome
  cases missing : (DistinctSelection.asked groupCount args).find? (input.schema.width ≤ ·) with
  | some ordinal => exact .inl ⟨_, perform_selectDistinct_missing missing firing⟩
  | none =>
      have complete : ∀ ordinal ∈ DistinctSelection.asked groupCount args,
          ordinal < input.schema.width := by
        simpa using missing
      exact .inr ⟨_, perform_selectDistinct_complete complete firing⟩

/-- The elimination uses its ids and proposes its replacement, whatever was done
in the firing before. -/
theorem perform_action_proposes {input : PlanNode} {aggregate : Aggregate}
    (eliminable : firing.binding.root.Eliminable aggregate input) :
    let root := firing.binding.root
    ∃ after, Step.perform DistinctElimination.action firing = (.ok (), after) ∧
      after.binding = firing.binding ∧
      after.nextId = firing.nextId + root.operator.eliminationIds ∧
      after.proposal = firing.proposal.or
        (some ((DistinctElimination.templateOf root).place firing.nextKey firing.nextId)) ∧
      after.warnings = firing.warnings ++
        if firing.proposal.isSome then [.furtherReplacement root.operator] else [] := by
  intro root
  let made : Firing :=
    ({ firing with log := firing.log ++ [DistinctElimination.eventOf aggregate] } : Firing).advance
      (DistinctElimination.templateOf root).size
  have typed := DistinctElimination.typed_templateOf eliminable
  have types : made.binding.root.types =
      ((DistinctElimination.templateOf root).place firing.nextKey firing.nextId).types :=
    (Template.types_place typed _ _).symm
  have silent : made.warnings = firing.warnings := by
    have quiet : (DistinctElimination.eventOf aggregate).level ≠ .warn := by
      rw [DistinctElimination.eventOf]
      split <;> simp [Event.level]
    simp [made, warnings, advance, quiet]
  have ids : made.nextId = firing.nextId + root.operator.eliminationIds := by
    rw [eliminable.operator, Operator.eliminationIds_aggregate, ← eliminable.operator,
      ← DistinctElimination.size_templateOf_eq eliminable]
    rfl
  rcases perform_propose_fitting types with ⟨after, performed, proposes⟩
  refine ⟨after, ?_, proposes.binding, proposes.nextId.trans ids, proposes.proposal, ?_⟩
  · rw [DistinctElimination.action_eq eliminable rfl]
    exact performed
  · rw [proposes.warnings, silent]
    rfl

/-- Where the elimination finds no distinct call it breaks off without a trace. -/
theorem perform_action_of_undistinct (checked : firing.binding.root.Checked)
    (undistinct : firing.binding.root.operator.hasDistinctCall = false) :
    ∃ failure, Step.perform DistinctElimination.action firing = (.error failure, firing) := by
  cases operator : firing.binding.root.operator with
  | aggregate grouping =>
      rw [operator] at undistinct
      exact ⟨_, DistinctElimination.action_of_undistinct checked operator undistinct⟩
  | tableScan _ _ | projection _ _ | join _ _ | filter _ | limit _ =>
      refine ⟨_, DistinctElimination.action_of_other fun grouping => ?_⟩
      rw [operator]
      exact Operator.noConfusion

namespace Request

/-- The elimination of the distinct calls of the bound root, where it has any. -/
theorem offer?_eliminate_of_distinct {input : PlanNode} {aggregate : Aggregate}
    (eliminable : firing.binding.root.Eliminable aggregate input) :
    eliminate.offer? firing = some ((DistinctElimination.templateOf firing.binding.root).place
      firing.nextKey firing.nextId) := by
  rcases @perform_action_proposes (start firing.binding firing.nextId firing.nextKey) _ _
    eliminable with ⟨after, performed, _, _, proposal, _⟩
  have rule : Rule.distinctElimination.action = DistinctElimination.action := rfl
  simp only [offer?, Rule.fire, rule, performed, proposal]
  rfl

theorem offer?_eliminate_of_undistinct (checked : firing.binding.root.Checked)
    (undistinct : firing.binding.root.operator.hasDistinctCall = false) :
    eliminate.offer? firing = none := by
  rcases @perform_action_of_undistinct (start firing.binding firing.nextId firing.nextKey)
    checked undistinct with ⟨failure, performed⟩
  have rule : Rule.distinctElimination.action = DistinctElimination.action := rfl
  simp only [offer?, Rule.fire, rule, performed]

/-- Whatever is offered has the types of the bound root. -/
theorem sameTypes_of_offer? (checked : firing.binding.root.Checked) {offer : PlanNode}
    (offered : request.offer? firing = some offer) :
    firing.binding.root.schema.sameTypes offer.schema = true := by
  cases request with
  | propose replacement =>
      rw [offer?] at offered
      split at offered
      · rename_i fits
        rwa [← Option.some.inj offered]
      · simp at offered
  | eliminate =>
      cases distinct : firing.binding.root.operator.hasDistinctCall with
      | false =>
          rw [offer?_eliminate_of_undistinct checked distinct] at offered
          simp at offered
      | true =>
          rcases checked.eliminable distinct with ⟨aggregate, input, eliminable⟩
          rw [offer?_eliminate_of_distinct eliminable] at offered
          rw [← Option.some.inj offered, Schema.sameTypes_iff]
          exact (Template.types_place (DistinctElimination.typed_templateOf eliminable) _ _).symm
  | root | operand _ | create _ _ | selectDistinct _ _ _ => simp [offer?] at offered

end Request

/-- The effect of every request, whatever was done in the firing before. -/
theorem effect_step (checked : firing.binding.root.Checked) (request : Request) :
    Effect request firing (Step.perform request.step firing).1
      (Step.perform request.step firing).2 := by
  cases request with
  | root => exact .of_advance 0 rfl rfl rfl
  | operand index =>
      rw [Request.step, Step.perform_bind_pure]
      refine .of_advance 0 rfl ?_ rfl
      simp only [operand, Step.perform_bind, Step.perform_get, Step.perform_index]
      split <;> rfl
  | create operator inputs =>
      rw [Request.step, Step.perform_bind_pure]
      refine .of_advance 1 rfl ?_ rfl
      rw [perform_create]
      simp only
      split <;> rfl
  | selectDistinct input groupCount args =>
      rw [Request.step, Step.perform_bind_pure]
      rcases perform_selectDistinct input groupCount args firing with
        ⟨failure, outcome⟩ | ⟨selection, outcome⟩
      · rw [outcome]
        exact .of_advance 0 rfl rfl rfl
      · rw [outcome]
        exact .of_advance 2 rfl rfl rfl
  | propose replacement =>
      rw [Request.step, Step.perform_bind]
      cases fits : firing.binding.root.schema.sameTypes replacement.schema with
      | false =>
          rw [perform_propose_misfit fits]
          refine .of_advance 0 ?_ rfl rfl
          rw [Request.offer?, fits]
          rfl
      | true =>
          have offered : (Request.propose replacement).offer? firing = some replacement := by
            rw [Request.offer?, fits]
            rfl
          rcases perform_propose_fitting (Schema.sameTypes_iff.mp fits) with
            ⟨after, performed, proposes⟩
          rw [performed]
          refine ⟨proposes.binding, proposes.nextId, ?_, ?_⟩
          · rw [offered]
            exact proposes.proposal
          · rw [offered]
            exact proposes.warnings
  | eliminate =>
      rw [Request.step, Step.perform_bind]
      cases distinct : firing.binding.root.operator.hasDistinctCall with
      | false =>
          rcases perform_action_of_undistinct checked distinct with ⟨failure, performed⟩
          rw [performed]
          exact .of_advance 0
            (Request.offer?_eliminate_of_undistinct checked distinct) rfl rfl
      | true =>
          rcases checked.eliminable distinct with ⟨aggregate, input, eliminable⟩
          have offered := Request.offer?_eliminate_of_distinct eliminable
          rcases perform_action_proposes eliminable with
            ⟨after, performed, binding, nextId, proposal, warnings⟩
          rw [performed]
          refine ⟨binding, nextId, ?_, ?_⟩
          · rw [offered]
            exact proposal
          · rw [offered]
            exact warnings

/-- A request that was carried out. -/
structure Handled where
  request : Request
  outcome : Except Failure (List PlanNode)
  /-- The fitting replacement that it proposed. -/
  offer? : Option PlanNode

/-- Carries out requests one after the other, and goes on after failures. -/
def handleAll : List Request → Firing → List Handled × Firing
  | [], firing => ([], firing)
  | request :: rest, firing =>
    let (outcome, later) := Step.perform request.step firing
    let (handled, last) := handleAll rest later
    (⟨request, outcome, request.offer? firing⟩ :: handled, last)

/-- What several requests do to a firing. -/
structure Account (before : Firing) (handled : List Handled) (after : Firing) : Prop where
  binding : after.binding = before.binding
  nextId : after.nextId = before.nextId +
    (handled.map fun entry => entry.request.idCount before.binding.root entry.outcome).sum
  proposal : after.proposal = before.proposal.or (handled.filterMap (·.offer?)).head?
  warnings : after.warnings = before.warnings ++
    List.replicate ((handled.filterMap (·.offer?)).length - if before.proposal.isSome then 0 else 1)
      (.furtherReplacement before.binding.root.operator)
  fitting : ∀ offer ∈ handled.filterMap (·.offer?),
    before.binding.root.schema.sameTypes offer.schema = true

theorem Account.nil (firing : Firing) : Account firing [] firing := by
  refine ⟨rfl, rfl, ?_, ?_, by simp⟩
  · simp
  · simp

/-- One more request in front. -/
theorem Account.cons {before middle : Firing} {outcome : Except Failure (List PlanNode)}
    {handled : List Handled} (checked : before.binding.root.Checked)
    (effect : Effect request before outcome middle) (account : Account middle handled after) :
    Account before (⟨request, outcome, request.offer? before⟩ :: handled) after where
  binding := account.binding.trans effect.binding
  nextId := by
    rw [account.nextId, effect.nextId, effect.binding, List.map_cons, List.sum_cons, Nat.add_assoc]
  proposal := by
    rw [account.proposal, effect.proposal, Option.or_assoc, List.filterMap_cons]
    cases request.offer? before <;> rfl
  warnings := by
    rw [account.warnings, effect.warnings, effect.proposal, effect.binding, List.filterMap_cons,
      List.append_assoc]
    -- The slot is filled before, or by this request, or not yet.
    cases before.proposal <;> cases request.offer? before <;> simp [List.replicate_succ]
  fitting := by
    have later := account.fitting
    rw [effect.binding] at later
    rw [List.filterMap_cons]
    cases offered : request.offer? before with
    | none => exact later
    | some offer =>
        exact List.forall_mem_cons.mpr ⟨Request.sameTypes_of_offer? checked offered, later⟩

/-- Every run of requests is accounted for. -/
theorem account_handleAll (checked : firing.binding.root.Checked) (requests : List Request) :
    Account firing (handleAll requests firing).1 (handleAll requests firing).2 := by
  induction requests generalizing firing with
  | nil => exact .nil firing
  | cons request rest ih =>
      have effect := effect_step checked request
      have later : (Step.perform request.step firing).2.binding.root.Checked := by
        rw [effect.binding]
        exact checked
      exact .cons checked effect (ih later)

theorem map_request_handleAll (requests : List Request) (firing : Firing) :
    (handleAll requests firing).1.map (·.request) = requests := by
  induction requests generalizing firing with
  | nil => rfl
  | cons request rest ih => exact congrArg (request :: ·) (ih _)

/-- After any requests to a firing on a built node, failed ones included, the
binding is what it was. The slot holds the first replacement that was proposed
and has the types of the bound root, and keeps it whatever is asked for later.
Every further one that fits has left a warning; one that does not fit breaks
off, and leaves the firing as it is. Every request has used the ids that it
needs, by its kind and its outcome. -/
theorem proposal_write_once (binding : Binding) (checked : binding.root.Checked)
    (nextId nextKey : Nat) (requests : List Request) :
    let run := handleAll requests (start binding nextId nextKey)
    let root := binding.root
    let offers := run.1.filterMap (·.offer?)
    run.1.map (·.request) = requests ∧
    run.2.binding = binding ∧
    run.2.proposal = offers.head? ∧
    (∀ kept, run.2.proposal = some kept → root.schema.sameTypes kept.schema = true ∧
      ∀ further, (handleAll further run.2).2.proposal = some kept) ∧
    run.2.warnings = List.replicate (offers.length - 1) (.furtherReplacement root.operator) ∧
    (∀ misfit, root.schema.sameTypes misfit.schema = false →
      Step.perform (propose misfit) run.2 =
        (.error (.violation (.incompatibleReplacement misfit.schema root.schema)), run.2)) ∧
    run.2.nextId =
      nextId + (run.1.map fun entry => entry.request.idCount root entry.outcome).sum := by
  intro run root offers
  have account : Account (start binding nextId nextKey) run.1 run.2 :=
    account_handleAll checked requests
  have first : run.2.proposal = offers.head? := account.proposal.trans Option.none_or
  have laterChecked : run.2.binding.root.Checked := by
    rw [account.binding]
    exact checked
  refine ⟨map_request_handleAll requests _, account.binding, first, ?_, ?_, ?_, account.nextId⟩
  · intro kept slot
    constructor
    · exact account.fitting kept (List.mem_of_mem_head? (first ▸ slot))
    · intro further
      rw [(account_handleAll laterChecked further).proposal, slot]
      rfl
  · exact account.warnings.trans (List.nil_append _)
  · intro misfit differs
    have broken : run.2.binding.root.schema.sameTypes misfit.schema = false := by
      rw [account.binding]
      exact differs
    rw [perform_propose_misfit broken, account.binding]
    rfl

end Firing

namespace Sample

/-- Requests of which some fail and three propose a replacement that fits. -/
def requests : List Firing.Request :=
  [.operand 5, .create (.limit 1) [], .propose orders, .eliminate, .propose customers,
    .selectDistinct orders 1 [1], .selectDistinct orders 3 [], .eliminate]

end Sample

namespace Firing

/-- `proposal_write_once` for a firing on an aggregate over a table. -/
theorem proposal_write_once_customers :
    let run := handleAll Sample.requests (start ⟨Sample.customers, [Sample.orders]⟩ 2 2)
    run.2.binding = ⟨Sample.customers, [Sample.orders]⟩ ∧
    (∃ kept, run.2.proposal = some kept ∧
      Sample.customers.schema.sameTypes kept.schema = true ∧
      ∀ further, (handleAll further run.2).2.proposal = some kept) ∧
    run.2.warnings = List.replicate 2 (.furtherReplacement (.aggregate Sample.itemCounts)) ∧
    Step.perform (propose Sample.orders) run.2 =
      (.error (.violation
        (.incompatibleReplacement Sample.orders.schema Sample.customers.schema)), run.2) ∧
    run.2.nextId = 2 + (1 + 6 + 2 + 6) := by
  have count :
      ((handleAll Sample.requests (start ⟨Sample.customers, [Sample.orders]⟩ 2 2)).1.filterMap
        (·.offer?)).length = 3 := by
    decide +kernel
  have used : ((handleAll Sample.requests (start ⟨Sample.customers, [Sample.orders]⟩ 2 2)).1.map
      fun entry => entry.request.idCount Sample.customers entry.outcome).sum = 1 + 6 + 2 + 6 := by
    decide +kernel
  obtain ⟨_, binding, first, fitting, warnings, misfit, ids⟩ :=
    proposal_write_once ⟨Sample.customers, [Sample.orders]⟩
      (Sample.customers_built _ .here) 2 2 Sample.requests
  -- From here on the run is known by these facts alone.
  generalize handleAll Sample.requests _ = run at *
  refine ⟨binding, ?_, ?_, misfit Sample.orders (by decide), by rw [ids, used]⟩
  · rcases List.exists_cons_of_length_eq_add_one count with ⟨offer, rest, offers⟩
    have slot : run.2.proposal = some offer := by
      rw [first, offers]
      rfl
    exact ⟨offer, slot, fitting offer slot⟩
  · rw [warnings, count]
    rfl

end Firing

end QueryPlan
