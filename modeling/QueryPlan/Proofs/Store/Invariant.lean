import Mathlib.Logic.Relation
import QueryPlan.Proofs.Graph.Splice
import QueryPlan.Proofs.Plan.Construction
import QueryPlan.Proofs.Run.Trace
import QueryPlan.Proofs.Store.Run

/-!
# The invariant of the graph of an optimization

Arcs, positions, the index and the supply of ids are kept in step by every import and
every splice. `StoreRun.WellFormed` says what holds of them together, at every moment of
an optimization at which a rule is tried or an iteration begins. It is read off the
working graph that the store implements: an optimization goes along with one on working
graphs (`StoreRun.Mirrors`), whose graphs represent plans.
-/

namespace QueryPlan

open DistinctElimination
open PlanNode (Occurs substitute)

/-- Whether an arc leads from a slot to another one. -/
def Store.Leads (store : Store) (source target : Nat) : Prop := target ∈ store.targets source

namespace Step

variable {State : Type} {round : Step State Bool} {start state later : State} {done further : Nat}

/-- The states in which the rounds of a loop begin that ends with the first round that
finds nothing, with the number of rounds that are done. -/
inductive Rounds (round : Step State Bool) (start : State) : Nat → State → Prop
  | first : Rounds round start 0 start
  | next {done : Nat} {state later : State} :
      Rounds round start done state → perform round state = (.ok true, later) →
      Rounds round start (done + 1) later

/-- After as many rounds there is one state. -/
theorem Rounds.unique (rounds : Rounds round start done state)
    (others : Rounds round start done later) : state = later := by
  induction rounds generalizing later with
  | first => cases others; rfl
  | next _ found ih =>
      cases others with
      | next earlier again =>
          rw [ih earlier, again] at found
          exact (Prod.mk.inj found).2.symm

end Step

namespace StoreRun

/-- The invariant of an optimization, and the exports that it makes possible. -/
structure WellFormed (run : StoreRun) : Prop where
  /-- No chain of arcs leads back to where it starts. -/
  acyclic : ∀ slot, ¬Relation.TransGen run.store.Leads slot slot
  root : run.store.root ∈ run.store.slots
  reachable : ∀ slot ∈ run.store.slots,
    Relation.ReflTransGen run.store.Leads run.store.root slot
  /-- Arcs lie between slots that are taken. -/
  ends : ∀ arc ∈ run.store.arcs.contents,
    arc.source ∈ run.store.slots ∧ arc.target ∈ run.store.slots
  /-- There is one arc at each position below the number of inputs. -/
  positions : ∀ slot entry, (slot, entry) ∈ run.store.nodes.members →
    ((run.store.arcsFrom slot).map (·.position)).Perm (List.range entry.operator.arity)
  index : ∀ id slot, run.store.index id = some slot ↔
    ∃ operator, (slot, ⟨id, operator⟩) ∈ run.store.nodes.members
  /-- Different ids are those of different slots. -/
  injective : ∀ id other slot, run.store.index id = some slot →
    run.store.index other = some slot → id = other
  /-- The ids from the next one on are unused. -/
  below : ∀ slot entry, (slot, entry) ∈ run.store.nodes.members → entry.id < run.nextId
  /-- Sorted by position, the arc at a place is the one with this position. -/
  inputs : ∀ slot ∈ run.store.slots, ∀ position target,
    (run.store.inputsOf slot)[position]? = some target ↔
      ⟨slot, target, position⟩ ∈ run.store.arcsFrom slot
  /-- Every slot has an export, whose inputs are those of the slots it leads to. -/
  exports : ∃ node : Nat → PlanNode, ∀ slot entry, (slot, entry) ∈ run.store.nodes.members →
    run.store.toPlan run.firstKey slot = .ok (node slot) ∧ (node slot).id = entry.id ∧
      (node slot).operator = entry.operator ∧
      (node slot).inputs = (run.store.inputsOf slot).map node

/-- Whether no id that was given out earlier is given out later: an id that the graph
has lost stays unused. -/
structure Succeeds (earlier later : StoreRun) : Prop where
  nextId : earlier.nextId ≤ later.nextId
  lost : ∀ id < earlier.nextId, earlier.store.index id = none → later.store.index id = none

/-- What a splice comes from, and what it does: the proposal of a rule for the node of a
slot takes the place of this node in the plan. -/
structure Splices (before : StoreRun) (rule : Rule) (slot : Nat) (after : StoreRun)
    (proposal : PlanNode) : Prop where
  fired : ∃ node binding firing, before.store.toPlan before.firstKey slot = .ok node ∧
    Binding.bind? rule.pattern node = some binding ∧
    rule.fire binding before.nextId (before.firstKey + before.nextId) =
      (.ok (some proposal), firing) ∧ after.nextId = firing.nextId
  supply : before.nextId ≤ after.nextId
  /-- The nodes of the proposal are exports, or have ids that were unused. -/
  nodes : ∀ inner, Occurs inner proposal →
    (∃ other ∈ before.store.slots, before.store.toPlan before.firstKey other = .ok inner) ∨
      before.nextId ≤ inner.id ∧ inner.id < after.nextId
  store : before.store.replace slot proposal = (after.store, true)
  /-- One id is lost, and those that were given out are used. -/
  ids : ∀ id, after.store.index id ≠ none ↔
    (before.nextId ≤ id ∧ id < after.nextId) ∨
      before.store.index id ≠ none ∧ id ≠ before.store.idAt slot
  plan : ∃ plan, before.store.toPlan before.firstKey before.store.root = .ok plan ∧
    after.store.toPlan after.firstKey after.store.root =
      .ok (substitute (before.store.idAt slot) proposal plan)

/-- Whether an iteration that begins in `run` tries a rule at a slot, in the state
`before`. -/
def Tries (optimizer : Optimizer) (run : StoreRun) (rule : Rule) (slot : Nat)
    (before : StoreRun) : Prop :=
  ∃ reached,
    Step.Arrives (fun slot => optimizer.rules.anyM (attempt slot))
      (visits optimizer.order run.store) run slot reached ∧
    Step.Arrives (attempt slot) optimizer.rules reached rule before

variable {run later : StoreRun} {other : OptimizerRun} {node : Nat → PlanNode} {slot : Nat}

namespace Mirrors

section WellFormed

/-- An arc leads to a slot when the vertex reads the one in this slot. -/
theorem leads_iff (mirrors : run.Mirrors other node) {target : Nat}
    (taken : slot ∈ run.store.slots) (targetTaken : target ∈ run.store.slots) :
    run.store.Leads slot target ↔
      Reads other.graph.vertices (run.store.idAt slot) (run.store.idAt target) :=
  (mirrors.implements.linked.reads_iff mirrors.implements.vertices mirrors.represents.ordered taken
    targetTaken).symm

/-- An arc leads to the slot of an input. -/
theorem input_of_leads (mirrors : run.Mirrors other node) {target : Nat}
    (leads : run.store.Leads slot target) :
    node (run.store.idAt target) ∈ (node (run.store.idAt slot)).inputs := by
  obtain ⟨taken, targetTaken⟩ := mirrors.implements.linked.taken_of_mem leads
  obtain ⟨vertex, present, same, reads⟩ := (mirrors.leads_iff taken targetTaken).mp leads
  rw [← same]
  exact mirrors.represents.labels.mem_inputs present reads

/-- A chain of arcs leads below an input. -/
theorem occurs_of_chain (mirrors : run.Mirrors other node) {target : Nat}
    (chain : Relation.TransGen run.store.Leads slot target) :
    ∃ input ∈ (node (run.store.idAt slot)).inputs, Occurs (node (run.store.idAt target)) input := by
  induction chain with
  | single leads => exact ⟨_, mirrors.input_of_leads leads, .here⟩
  | tail _ leads ih =>
      obtain ⟨input, isInput, below⟩ := ih
      exact ⟨input, isInput, (Occurs.input (mirrors.input_of_leads leads)).trans below⟩

/-- What the root reads is reached from its slot. -/
theorem exists_chain (mirrors : run.Mirrors other node) {id : Nat}
    (reaches : Reaches other.graph.vertices other.graph.root id) :
    ∃ slot ∈ run.store.slots, run.store.idAt slot = id ∧
      Relation.ReflTransGen run.store.Leads run.store.root slot := by
  have implements := mirrors.implements
  induction reaches with
  | refl => exact ⟨_, implements.root, implements.rootId, .refl⟩
  | @tail _ input _ reads ih =>
      obtain ⟨slot, taken, rfl, chain⟩ := ih
      have listed : input ∈ other.graph.ids := by
        obtain ⟨vertex, present, _, isInput⟩ := reads
        exact mirrors.represents.input_mem present isInput
      obtain ⟨target, targetTaken, rfl⟩ := implements.mem_ids.mp listed
      exact ⟨target, targetTaken, rfl, chain.tail ((mirrors.leads_iff taken targetTaken).mpr reads)⟩

/-- The export of a slot is a node with the operator in it, over the exports of its
inputs. -/
theorem exports (mirrors : run.Mirrors other node) {entry : Store.Entry}
    (member : (slot, entry) ∈ run.store.nodes.members) :
    run.store.toPlan run.firstKey slot = .ok (node (run.store.idAt slot)) ∧
      (node (run.store.idAt slot)).id = entry.id ∧
      (node (run.store.idAt slot)).operator = entry.operator ∧
      (node (run.store.idAt slot)).inputs =
        (run.store.inputsOf slot).map fun input => node (run.store.idAt input) := by
  have represents := mirrors.represents
  have present := mirrors.implements.vertexAt_mem member
  have exported := Store.toPlan_eq mirrors.implements represents
    (Store.mem_slots.mpr ⟨entry, member⟩)
  have inputs := represents.labels.inputs_eq present
  rw [← Store.map_inputsOf (represents.ordered.wired present), List.map_map] at inputs
  rw [mirrors.firstKey, exported, Store.idAt_of_mem member]
  exact ⟨rfl, represents.labels.id_eq (List.mem_map_of_mem present),
    represents.labels.operator_eq present, inputs⟩

/-- A run that goes along with one on working graphs is well-formed. -/
theorem wellFormed (mirrors : run.Mirrors other node) : run.WellFormed := by
  have implements := mirrors.implements
  have linked := implements.linked
  have represents := mirrors.represents
  have wired {slot : Nat} {entry : Store.Entry}
      (member : (slot, entry) ∈ run.store.nodes.members) :=
    represents.ordered.wired (implements.vertexAt_mem member)
  refine ⟨?acyclic, implements.root, ?reachable, linked.ends, ?positions, linked.index, ?injective,
    ?below, ?inputs, ?exports⟩
  case acyclic =>
    intro slot cycle
    obtain ⟨input, isInput, below⟩ := mirrors.occurs_of_chain cycle
    exact PlanNode.not_occurs_input isInput below
  case reachable =>
    intro slot taken
    obtain ⟨vertex, present, id⟩ := mirrors.exists_vertex taken
    obtain ⟨found, foundTaken, same, chain⟩ := mirrors.exists_chain (represents.reachable _ present)
    rwa [linked.slot_inj taken foundTaken (id.trans same.symm)]
  case positions =>
    intro slot entry member
    have built := represents.labels _ (implements.vertexAt_mem member)
    have arity := (PlanNode.exists_build_iff.mp ⟨_, built⟩).1
    rw [List.length_map] at arity
    have positions := Store.perm_positions (wired member)
    rwa [arity] at positions
  case injective =>
    intro id other slot first second
    exact (linked.mem_of_index first).2.symm.trans (linked.mem_of_index second).2
  case below =>
    intro slot entry member
    rw [mirrors.nextId]
    exact mirrors.fresh _ (List.mem_map_of_mem (implements.vertexAt_mem member))
  case inputs =>
    intro slot taken position target
    obtain ⟨entry, member⟩ := Store.mem_slots.mp taken
    exact Store.getElem?_inputsOf (wired member)
  case exports =>
    exact ⟨fun slot => node (run.store.idAt slot), fun slot entry member => mirrors.exports member⟩

end WellFormed

section Attempt

/-- What is below the node of a slot is an export. -/
theorem exists_export (mirrors : run.Mirrors other node) {inner : PlanNode}
    (occurs : Occurs inner (node other.graph.root)) :
    ∃ slot ∈ run.store.slots, run.store.toPlan run.firstKey slot = .ok inner := by
  obtain ⟨listed, label⟩ := mirrors.represents.eq_label occurs
  obtain ⟨slot, taken, id⟩ := mirrors.implements.mem_ids.mp listed
  refine ⟨slot, taken, ?_⟩
  rw [mirrors.firstKey, Store.toPlan_eq mirrors.implements mirrors.represents taken, id, label]

/-- What the elimination proposes is spliced. -/
theorem splices (mirrors : run.Mirrors other node) (taken : slot ∈ run.store.slots)
    {vertex : Vertex} (id : run.store.idAt slot = vertex.id) {aggregate : Aggregate}
    {input : PlanNode}
    (replaceable : Replaceable other.graph other.firstKey node vertex
      (templateOf (node vertex.id)) other.nextId)
    (eliminable : (node vertex.id).Eliminable aggregate input) (log : List Event) :
    let proposal := (templateOf (node vertex.id)).place (other.firstKey + other.nextId)
      other.nextId
    run.Splices .distinctElimination slot
      ⟨(run.store.replace slot proposal).1, run.firstKey,
        run.nextId + (templateOf (node vertex.id)).size, log⟩ proposal := by
  intro proposal
  have implements := mirrors.implements
  have represents := mirrors.represents
  have graftable := replaceable.graftable
  obtain ⟨changed, later⟩ := Store.implements_replace implements graftable taken id
  refine ⟨?fired, Nat.le_add_right _ _, ?nodes, Prod.ext rfl changed, ?ids, ?plan⟩
  case fired =>
    have exported := Store.toPlan_eq implements represents taken
    rw [← mirrors.firstKey, id] at exported
    have fired := fire_eq eliminable run.nextId (run.firstKey + run.nextId)
    have supply : (templateOf (node vertex.id)).place (run.firstKey + run.nextId) run.nextId =
        proposal := by
      rw [mirrors.firstKey, mirrors.nextId]
    rw [supply] at fired
    exact ⟨_, _, _, exported, bind?_of_eliminable eliminable, fired, rfl⟩
  case nodes =>
    intro inner occurs
    rcases Template.occurs_place _ _ _ occurs with new | ⟨leaf, isLeaf, below⟩
    · rw [mirrors.nextId]
      exact .inr (Template.id_of_created new)
    · have inPlan := represents.occurs_label replaceable.target_mem
      have below := below.trans (.input (replaceable.leaf_input isLeaf))
      exact .inl (mirrors.exists_export (below.trans inPlan))
  case ids =>
    intro other
    rw [later.index_ne_none_iff, replaceable.mem_ids_replace, List.mem_range'_1,
      implements.index_ne_none_iff, id, mirrors.nextId]
  case plan =>
    have exported := Store.toPlan_eq implements represents implements.root
    have replaced := Store.toPlan_eq later graftable.represents_replace later.root
    rw [implements.rootId] at exported
    rw [later.rootId, graftable.plan_replace] at replaced
    rw [mirrors.firstKey, id]
    exact ⟨_, exported, replaced⟩

/-- Trying the elimination never fails. It splices what is proposed for the node of the
slot, or leaves everything but the records alone. -/
theorem attempt_spec (mirrors : run.Mirrors other node) (taken : slot ∈ run.store.slots) :
    ∃ changed later lateOther,
      Step.perform (attempt slot .distinctElimination) run = (.ok changed, later) ∧
      later.Follows lateOther ∧
      if changed then ∃ proposal, run.Splices .distinctElimination slot later proposal
      else ∃ log, later = { run with log } := by
  obtain ⟨vertex, member, id⟩ := mirrors.exists_vertex taken
  cases distinct : (node (run.store.idAt slot)).operator.hasDistinctCall with
  | false =>
      exact ⟨false, _, _, mirrors.perform_attempt_of_undistinct taken distinct,
        ⟨node, mirrors.record _⟩, _, rfl⟩
  | true =>
      rw [id] at distinct
      obtain ⟨aggregate, input, eliminable⟩ :=
        (mirrors.represents.labels.checked member).eliminable distinct
      have replaceable := OptimizerRun.replaceable_templateOf mirrors.represents member eliminable
        mirrors.fresh
      exact ⟨true, _, _, mirrors.perform_attempt_eq taken id replaceable eliminable,
        mirrors.spliced taken id replaceable [_, _, _], _,
        mirrors.splices taken id replaceable eliminable _⟩

end Attempt

section Moments

variable {copies : Nat} {order : VisitOrder} {maxIterations : Nat}

/-- Until a rule is tried, an iteration leaves only records. -/
theorem waits_of_tries (mirrors : run.Mirrors other node) {rule : Rule}
    (tries : run.Tries (.eliminating copies order maxIterations) rule slot later) :
    rule = .distinctElimination ∧ slot ∈ run.store.slots ∧
      ∃ lateOther, Waits run node later lateOther := by
  obtain ⟨reached, ⟨earlier, rest, visited, untilSlot⟩,
    ⟨earlierRules, restRules, rules, untilRule⟩⟩ := tries
  have taken : ∀ other ∈ earlier ++ slot :: rest, other ∈ run.store.slots := by
    intro other member
    rw [← visited] at member
    exact (mirrors.mem_visits order).mp member
  -- The rules that were tried before are copies as well.
  have copy : ∀ other ∈ earlierRules ++ rule :: restRules, other = .distinctElimination := by
    intro other member
    rw [← rules] at member
    exact List.eq_of_mem_replicate member
  have slotTaken := taken slot (by simp)
  refine ⟨copy rule (by simp), slotTaken, ?_⟩
  have searched := mirrors.agrees_search
    (fun other member => taken other (List.mem_append_left _ member)) copies
  have outcome : Step.perform (earlier.anyM fun slot =>
      (List.replicate copies Rule.distinctElimination).anyM (attempt slot)) run =
        (.ok false, reached) := untilSlot
  rw [outcome] at searched
  obtain ⟨reachedOther, still, log, rfl⟩ := searched.of_false
  have tried := still.agrees_rules slotTaken earlierRules.length
  have copies := List.eq_replicate_of_mem fun other member =>
    copy other (List.mem_append_left _ member)
  rw [← copies, untilRule] at tried
  exact tried.of_false

end Moments

end Mirrors

section Moments

variable {plan : PlanNode} {copies : Nat} {order : VisitOrder} {maxIterations firstKey : Nat}

theorem Succeeds.refl (run : StoreRun) : run.Succeeds run :=
  ⟨Nat.le_refl _, fun _ _ unused => unused⟩

theorem Succeeds.trans {first second third : StoreRun} (early : first.Succeeds second)
    (late : second.Succeeds third) : first.Succeeds third :=
  ⟨Nat.le_trans early.nextId late.nextId, fun id given unused =>
    late.lost id (Nat.lt_of_lt_of_le given early.nextId) (early.lost id given unused)⟩

/-- A splice uses no id that was given out before. -/
theorem Splices.succeeds {rule : Rule} {proposal : PlanNode}
    (splices : run.Splices rule slot later proposal) : run.Succeeds later := by
  refine ⟨splices.supply, ?_⟩
  intro id given unused
  by_contra used
  rcases (splices.ids id).mp used with ⟨fresh, _⟩ | ⟨old, _⟩
  · exact absurd given (Nat.not_lt.mpr fresh)
  · exact old unused

/-- Whenever an iteration begins, an iteration on a working graph begins as well. -/
theorem follows_of_rounds (valid : plan.Valid) {done : Nat}
    (rounds : Step.Rounds (iterate (.eliminating copies order maxIterations))
      (start plan firstKey) done run) :
    ∃ other, OptimizerRun.Begins (.eliminating copies order maxIterations) (.start plan firstKey)
      done other ∧ run.Follows other := by
  induction rounds with
  | first => exact ⟨_, .first, _, .start valid firstKey⟩
  | next _ found ih =>
      obtain ⟨other, begins, node, mirrors⟩ := ih
      have agrees := mirrors.agrees_iterate copies order maxIterations
      rw [found] at agrees
      obtain ⟨later, changed, follows⟩ := agrees.right_of_left
      exact ⟨later, .next begins changed, follows⟩

/-- Whenever an iteration on a working graph begins, one in slots begins as well. -/
theorem exists_rounds (valid : plan.Valid) {done : Nat}
    (begins : OptimizerRun.Begins (.eliminating copies order maxIterations)
      (.start plan firstKey) done other) :
    ∃ run, Step.Rounds (iterate (.eliminating copies order maxIterations)) (start plan firstKey)
      done run ∧ run.Follows other := by
  induction begins with
  | first => exact ⟨_, .first, _, .start valid firstKey⟩
  | next _ changed ih =>
      obtain ⟨run, rounds, node, mirrors⟩ := ih
      have agrees := mirrors.agrees_iterate copies order maxIterations
      rw [changed] at agrees
      obtain ⟨later, found, follows⟩ := agrees.left_of_right
      exact ⟨later, .next rounds found, follows⟩

/-- Between the beginnings of two iterations no id is given out again. -/
theorem succeeds_of_iterate (follows : run.Follows other)
    (found : Step.perform (iterate (.eliminating copies order maxIterations)) run =
      (.ok true, later)) : run.Succeeds later := by
  obtain ⟨node, mirrors⟩ := follows
  rw [iterate, Step.perform_bind, Step.perform_get] at found
  obtain ⟨slot, reached, atSlot, passes⟩ := Step.exists_arrives found
  obtain ⟨rule, before, atRule, applied⟩ := Step.exists_arrives passes
  have tries : run.Tries (.eliminating copies order maxIterations) rule slot before :=
    ⟨reached, atSlot, atRule⟩
  obtain ⟨rfl, taken, _, still, log, rfl⟩ := mirrors.waits_of_tries tries
  obtain ⟨changed, after, _, performed, _, outcome⟩ := still.attempt_spec taken
  rw [performed] at applied
  obtain ⟨rfl, rfl⟩ : changed = true ∧ after = later := by simpa using applied
  obtain ⟨proposal, splices⟩ := outcome
  exact ⟨splices.succeeds.nextId, splices.succeeds.lost⟩

theorem succeeds_of_rounds (valid : plan.Valid) {done further : Nat}
    (rounds : Step.Rounds (iterate (.eliminating copies order maxIterations))
      (start plan firstKey) done run)
    (others : Step.Rounds (iterate (.eliminating copies order maxIterations))
      (start plan firstKey) further later) (before : done ≤ further) : run.Succeeds later := by
  induction others with
  | first =>
      obtain rfl := Nat.le_zero.mp before
      rw [rounds.unique .first]
      exact .refl _
  | @next further middle later earlier found ih =>
      rcases Nat.le_succ_iff.mp before with less | rfl
      · obtain ⟨other, _, follows⟩ := follows_of_rounds valid earlier
        exact (ih less).trans (succeeds_of_iterate follows found)
      · rw [rounds.unique (.next earlier found)]
        exact .refl _

/-- An optimization with its graph in slots gives what one on a working graph gives. It
starts on the plan with its nodes numbered anew, and at each beginning of an iteration its
store implements the working graph.

Whenever an iteration begins, and before and after every attempt at a slot, the run is
well-formed: its graph has no cycle and is reached from the root, every slot has one arc
at each position, the index leads from the ids in the slots to these slots, and all ids
are below the next one; so sorting recovers the inputs, and every slot is exported. An
attempt does not fail. It splices what the rule proposes, with nodes that are exports of
the graph or have unused ids, or leaves the graph alone. An id that the graph has lost is
never used again. -/
theorem wellFormed_throughout {plan : PlanNode} (valid : plan.Valid) (copies : Nat)
    (order : VisitOrder) (maxIterations firstKey : Nat) :
    let optimizer := Optimizer.eliminating copies order maxIterations
    let start := StoreRun.start plan firstKey
    optimizer.optimizeInSlots plan firstKey = optimizer.optimize plan firstKey ∧
      start.store.toPlan firstKey start.store.root =
        .ok (relabel firstKey (plan.nodes.map (·.key)) plan) ∧
      (∀ done other, OptimizerRun.Begins optimizer (.start plan firstKey) done other →
        ∃ run, Step.Rounds (iterate optimizer) start done run ∧ run.Follows other) ∧
      ∀ done run, Step.Rounds (iterate optimizer) start done run →
        run.WellFormed ∧
        (∀ rule slot before, run.Tries optimizer rule slot before →
          before.WellFormed ∧
          ∃ changed after, Step.perform (attempt slot rule) before = (.ok changed, after) ∧
            after.WellFormed ∧
            if changed then ∃ proposal, before.Splices rule slot after proposal
            else ∃ log, after = { before with log }) ∧
        ∀ further later, Step.Rounds (iterate optimizer) start further later → done ≤ further →
          run.Succeeds later := by
  intro optimizer start
  refine ⟨Optimizer.optimizeInSlots_eq valid copies order maxIterations firstKey, ?_,
    fun _ _ => exists_rounds valid, ?_⟩
  · have mirrors := Mirrors.start valid firstKey
    have exported := Store.toPlan_eq mirrors.implements mirrors.represents mirrors.implements.root
    rw [mirrors.implements.rootId] at exported
    exact exported.trans (congrArg Except.ok (placeLabel_root valid.coherent))
  · intro done run rounds
    obtain ⟨other, _, node, mirrors⟩ := follows_of_rounds valid rounds
    refine ⟨mirrors.wellFormed, ?_, fun _ _ => succeeds_of_rounds valid rounds⟩
    intro rule slot before tries
    obtain ⟨rfl, taken, _, still, log, rfl⟩ := mirrors.waits_of_tries tries
    obtain ⟨changed, after, _, performed, ⟨_, late⟩, outcome⟩ := still.attempt_spec taken
    exact ⟨still.wellFormed, changed, after, performed, late.wellFormed, outcome⟩

/-- `wellFormed_throughout` for pairs of customers: the first iteration changes the graph,
which is well-formed before and after. -/
theorem wellFormed_throughout_pairs :
    let optimizer := Optimizer.eliminating 1 .topDown 5
    let start := StoreRun.start Sample.pairs 3
    start.WellFormed ∧ ∃ later, Step.perform (iterate optimizer) start = (.ok true, later) ∧
      later.WellFormed ∧ start.Succeeds later := by
  intro optimizer start
  obtain ⟨_, _, _, moments⟩ := wellFormed_throughout Sample.pairs_valid 1 .topDown 5 3
  have agrees := (Mirrors.start Sample.pairs_valid 3).agrees_iterate 1 .topDown 5
  have some := OptimizerRun.todo_start Sample.pairs_valid 0 3
  rw [Sample.eliminationCount_pairs] at some
  rcases OptimizerRun.perform_iterate (OptimizerRun.worksOn_start Sample.pairs_valid 3) 1 .topDown 5
    with ⟨_, _, _, none⟩ | ⟨_, _, changed, _⟩
  · exact absurd (some.symm.trans none) Nat.one_ne_zero
  · rw [changed] at agrees
    obtain ⟨later, found, _⟩ := agrees.left_of_right
    have next := Step.Rounds.next .first found
    exact ⟨(moments 0 start .first).1, later, found, (moments 1 later next).1,
      (moments 0 start .first).2.2 1 later next (Nat.zero_le 1)⟩

end Moments

end StoreRun

end QueryPlan
