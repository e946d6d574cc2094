import QueryPlan.Error

/-!
# Steps

A step works on a state and may fail. What it has done to the state before it
fails stays done, so running a step gives its outcome and a state in either
case. `Step.perform` is this view of a step, and every lemma of this module
says what it is for one way of making steps.
-/

namespace QueryPlan

/-- Computations on a state of type `State` that may fail and keep the state. -/
abbrev Step (State : Type) := ExceptT Failure (StateM State)

namespace Step

variable {State α β : Type}

/-- Runs a step from a state. -/
def perform (step : Step State α) (state : State) : Except Failure α × State :=
  step.run.run state

/-- Fails because of a bad plan or a rule in the wrong place. -/
def fail (error : PlanError) : Step State α := throw (.error error)

/-- Fails because of a broken obligation. -/
def violate (violation : Violation) : Step State α := throw (.violation violation)

/-- The value of a computation that does not look at the state. -/
def ofExcept : Except PlanError α → Step State α
  | .ok value => return value
  | .error error => fail error

/-- The member of a list at a position. A position beyond its end is a broken
obligation. -/
def index (members : List α) (position : Nat) : Step State α :=
  match members[position]? with
  | some member => return member
  | none => violate (.indexOutOfRange members.length position)

@[simp] theorem perform_pure (value : α) (state : State) :
    perform (pure value) state = (.ok value, state) := rfl

@[simp] theorem perform_throw (failure : Failure) (state : State) :
    perform (throw failure : Step State α) state = (.error failure, state) := rfl

@[simp] theorem perform_fail (error : PlanError) (state : State) :
    perform (fail error : Step State α) state = (.error (.error error), state) := rfl

@[simp] theorem perform_violate (violation : Violation) (state : State) :
    perform (violate violation : Step State α) state = (.error (.violation violation), state) := rfl

@[simp] theorem perform_get (state : State) : perform get state = (.ok state, state) := rfl

@[simp] theorem perform_set (state later : State) : perform (set later) state = (.ok ⟨⟩, later) := rfl

@[simp] theorem perform_modify (change : State → State) (state : State) :
    perform (modify change) state = (.ok ⟨⟩, change state) := rfl

@[simp] theorem perform_ofExcept_ok (value : α) (state : State) :
    perform (ofExcept (.ok value)) state = (.ok value, state) := rfl

@[simp] theorem perform_ofExcept_error (error : PlanError) (state : State) :
    perform (ofExcept (.error error) : Step State α) state = (.error (.error error), state) := rfl

theorem perform_index (members : List α) (position : Nat) (state : State) :
    perform (index members position) state =
      match members[position]? with
      | some member => (.ok member, state)
      | none => (.error (.violation (.indexOutOfRange members.length position)), state) := by
  rw [index]
  cases members[position]? <;> rfl

theorem perform_index_of_some {members : List α} {position : Nat} {member : α}
    (found : members[position]? = some member) (state : State) :
    perform (index members position) state = (.ok member, state) := by
  rw [perform_index, found]

/-- The second step goes on from where the first one ends, unless it fails. -/
theorem perform_bind (step : Step State α) (next : α → Step State β) (state : State) :
    perform (step >>= next) state =
      match perform step state with
      | (.ok value, later) => perform (next value) later
      | (.error failure, later) => (.error failure, later) := by
  simp only [perform, ExceptT.run_bind, StateT.run_bind]
  rcases (StateT.run (ExceptT.run step) state : Id _) with ⟨result, later⟩
  cases result <;> rfl

/-- A step that succeeds hands its value to the next one. -/
theorem perform_bind_of_ok {step : Step State α} {next : α → Step State β} {state later : State}
    {value : α} (succeeds : perform step state = (.ok value, later)) :
    perform (step >>= next) state = perform (next value) later := by
  rw [perform_bind, succeeds]

/-- A loop over members with their positions that leaves the state alone. What it
has made is told by the members that it has taken in so far. -/
theorem perform_foldlM_zipIdx {step : β → α × Nat → Step State β} {members : List α}
    {made : List α → β} {state : State}
    (succeeds : ∀ before member after, members = before ++ member :: after →
      perform (step (made before) (member, before.length)) state =
        (.ok (made (before ++ [member])), state)) :
    perform (members.zipIdx.foldlM step (made [])) state = (.ok (made members), state) := by
  -- Induction on the members that are left, for any that were taken in before.
  suffices further : ∀ after before, members = before ++ after →
      perform ((after.zipIdx before.length).foldlM step (made before)) state =
        (.ok (made members), state) from further members [] rfl
  intro after
  induction after with
  | nil =>
      rintro before rfl
      rw [List.append_nil]
      rfl
  | cons member rest ih =>
      intro before split
      have later := ih (before ++ [member]) (by rw [split, List.append_assoc, List.singleton_append])
      rw [List.length_append, List.length_singleton] at later
      rw [List.zipIdx_cons, List.foldlM_cons,
        perform_bind_of_ok (succeeds before member rest split), later]

/-- A loop that makes something of every member and leaves the state alone. -/
theorem perform_mapM {step : α → Step State β} {members : List α} {image : α → β} {state : State}
    (succeeds : ∀ member ∈ members, perform (step member) state = (.ok (image member), state)) :
    perform (members.mapM step) state = (.ok (members.map image), state) := by
  induction members with
  | nil => rfl
  | cons first rest ih =>
      obtain ⟨firstSucceeds, restSucceeds⟩ := List.forall_mem_cons.mp succeeds
      rw [List.mapM_cons, perform_bind_of_ok firstSucceeds, perform_bind_of_ok (ih restSucceeds)]
      rfl

/-- A search tests one value after the other, up to the first that passes. -/
theorem perform_anyM_cons (test : α → Step State Bool) (first : α) (rest : List α) (state : State) :
    perform ((first :: rest).anyM test) state =
      match perform (test first) state with
      | (.ok true, later) => (.ok true, later)
      | (.ok false, later) => perform (rest.anyM test) later
      | (.error failure, later) => (.error failure, later) := by
  rw [List.anyM, perform_bind]
  split
  · rename_i value later equal
    rw [equal]
    cases value <;> rfl
  · rename_i failure later equal
    rw [equal]

end Step

end QueryPlan
