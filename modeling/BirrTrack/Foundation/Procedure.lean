import Mathlib.Data.List.Basic

/-! # Procedures on a state that may fail

A procedure reads and writes a state and either returns a value or throws. What it
wrote before it threw stays written, unless it runs inside `Procedure.transaction`.
-/

/-- A sequence of steps on a state that returns a value or throws. -/
abbrev Procedure (State Failure : Type) := ExceptT Failure (StateM State)

namespace Procedure

variable {State Outer Failure α β : Type}

/-- Run a procedure from a state. -/
def run (procedure : Procedure State Failure α) (state : State) : Except Failure α × State :=
  procedure state

/-- One atomic statement: where it fails it changes nothing. -/
def statement (effect : State → Except Failure (α × State)) : Procedure State Failure α :=
  fun state =>
  match effect state with
  | .ok (a, after) => (.ok a, after)
  | .error failure => (.error failure, state)

/-- A statement that only reads. -/
def query (read : State → Except Failure α) : Procedure State Failure α := fun state =>
  (read state, state)

/-- A computation without a state. -/
def ofExcept (result : Except Failure α) : Procedure State Failure α := query fun _ => result

/-- All of a procedure's effects, or none of them. -/
def transaction (procedure : Procedure State Failure α) : Procedure State Failure α := fun state =>
  match procedure.run state with
  | (.ok a, after) => (.ok a, after)
  | (.error failure, _) => (.error failure, state)

/-- A procedure on a part of the state. -/
def within (get : Outer → State) (set : State → Outer → Outer)
    (procedure : Procedure State Failure α) : Procedure Outer Failure α := fun outer =>
  let (result, inner) := procedure.run (get outer)
  (result, set inner outer)

theorem ok_bind (a : α) (next : α → Except Failure β) : (Except.ok a >>= next) = next a := rfl

/-- Two steps succeed if both do, one after the other. -/
theorem bind_eq_ok {result : Except Failure α} {next : α → Except Failure β} {b : β} :
    (result >>= next) = .ok b ↔ ∃ a, result = .ok a ∧ next a = .ok b := by
  cases result with
  | ok a =>
      refine ⟨?_, ?_⟩
      · intro reached
        exact ⟨a, rfl, reached⟩
      · intro conditions
        obtain ⟨other, same, reached⟩ := conditions
        cases same
        exact reached
  | error failure =>
      refine ⟨?_, ?_⟩
      · intro impossible
        cases impossible
      · intro conditions
        obtain ⟨other, impossible, -⟩ := conditions
        cases impossible

/-- Two steps fail where the first does, or the second after it. -/
theorem bind_eq_error {result : Except Failure α} {next : α → Except Failure β}
    {failure : Failure} :
    (result >>= next) = .error failure ↔
      result = .error failure ∨ ∃ a, result = .ok a ∧ next a = .error failure := by
  cases result with
  | ok a =>
      refine ⟨fun reached => Or.inr ⟨a, rfl, reached⟩, ?_⟩
      rintro (impossible | ⟨other, same, reached⟩)
      · cases impossible
      · cases same
        exact reached
  | error thrown =>
      refine ⟨fun same => Or.inl (congrArg Except.error (Except.error.inj same)), ?_⟩
      rintro (same | ⟨other, impossible, -⟩)
      · exact congrArg Except.error (Except.error.inj same)
      · cases impossible

@[simp] theorem run_pure (a : α) (state : State) :
    run (pure a : Procedure State Failure α) state = (.ok a, state) := rfl

@[simp] theorem run_throw (failure : Failure) (state : State) :
    run (throw failure : Procedure State Failure α) state = (.error failure, state) := rfl

/-- The second procedure starts in the state the first one left. -/
theorem run_bind (first : Procedure State Failure α) (second : α → Procedure State Failure β)
    (state : State) :
    run (first >>= second) state =
      match run first state with
      | (.ok a, after) => run (second a) after
      | (.error failure, after) => (.error failure, after) := by
  change (ExceptT.bindCont second (run first state).1) (run first state).2 = _
  rcases run first state with ⟨result, after⟩
  cases result <;> rfl

/-- After a success the second procedure runs. -/
theorem run_bind_ok {first : Procedure State Failure α} {second : α → Procedure State Failure β}
    {state after : State} {a : α} (ran : run first state = (.ok a, after)) :
    run (first >>= second) state = run (second a) after := by
  rw [run_bind, ran]

/-- After a failure it does not. -/
theorem run_bind_error {first : Procedure State Failure α} {second : α → Procedure State Failure β}
    {state after : State} {failure : Failure} (ran : run first state = (.error failure, after)) :
    run (first >>= second) state = (.error failure, after) := by
  rw [run_bind, ran]

/-- A handler starts in the state where the failure was raised: nothing is undone. -/
theorem run_tryCatch (procedure : Procedure State Failure α)
    (handler : Failure → Procedure State Failure α) (state : State) :
    run (tryCatch procedure handler) state =
      match run procedure state with
      | (.ok a, after) => (.ok a, after)
      | (.error failure, after) => run (handler failure) after := by
  rcases ran : run procedure state with ⟨result, after⟩
  have unfolded : run (tryCatch procedure handler) state =
      (match (procedure state).1 with
        | .ok a => (pure (.ok a) : StateM State (Except Failure α))
        | .error failure => handler failure) (procedure state).2 := rfl
  rw [unfolded, show procedure state = (result, after) from ran]
  cases result <;> rfl

/-- Two procedures in a row succeed if both do, one after the other. -/
theorem run_bind_eq_ok {first : Procedure State Failure α} {second : α → Procedure State Failure β}
    {state final : State} {b : β} :
    run (first >>= second) state = (.ok b, final) ↔
      ∃ a after, run first state = (.ok a, after) ∧ run (second a) after = (.ok b, final) := by
  rw [run_bind]
  rcases run first state with ⟨result, middle⟩
  cases result with
  | ok a =>
      refine ⟨?_, ?_⟩
      · intro ran
        exact ⟨a, middle, rfl, ran⟩
      · intro conditions
        obtain ⟨a, after, same, ran⟩ := conditions
        cases same
        exact ran
  | error failure =>
      refine ⟨?_, ?_⟩
      · intro ran
        cases ran
      · intro conditions
        obtain ⟨a, after, same, -⟩ := conditions
        cases same

theorem run_query (read : State → Except Failure α) (state : State) :
    run (query read) state = (read state, state) := rfl

theorem run_ofExcept_bind (a : α) (second : α → Procedure State Failure β) (state : State) :
    run (ofExcept (.ok a) >>= second) state = run (second a) state := rfl

/-- Running on a part of the state changes that part. -/
theorem run_within (get : Outer → State) (set : State → Outer → Outer)
    (procedure : Procedure State Failure α) (outer : Outer) :
    run (within get set procedure) outer =
      ((run procedure (get outer)).1, set (run procedure (get outer)).2 outer) := rfl

/-- A statement that succeeds leaves the state it computed. -/
theorem run_statement_ok {effect : State → Except Failure (α × State)} {state after : State} {a : α}
    (done : effect state = .ok (a, after)) : run (statement effect) state = (.ok a, after) := by
  unfold run statement
  rw [done]

/-- A statement that fails leaves the state as it was. -/
theorem run_statement_error {effect : State → Except Failure (α × State)} {state : State}
    {failure : Failure} (failed : effect state = .error failure) :
    run (statement effect) state = (.error failure, state) := by
  unfold run statement
  rw [failed]

/-- A transaction succeeds exactly as its procedure does. -/
theorem run_transaction_eq_ok {procedure : Procedure State Failure α} {state after : State}
    {a : α} :
    run (transaction procedure) state = (.ok a, after) ↔ run procedure state = (.ok a, after) := by
  change (match procedure.run state with
    | (.ok a, after) => (.ok a, after)
    | (.error failure, _) => (.error failure, state) : Except Failure α × State) = _ ↔ _
  rcases procedure.run state with ⟨result, middle⟩
  cases result with
  | ok b => exact Iff.rfl
  | error failure =>
      constructor <;> (intro same; cases same)

/-- A transaction that throws leaves the state as it was. -/
theorem run_transaction_error {procedure : Procedure State Failure α} {state after : State}
    {failure : Failure} (failed : run (transaction procedure) state = (.error failure, after)) :
    after = state := by
  unfold run transaction at failed
  rcases ran : procedure.run state with ⟨result, middle⟩
  rw [ran] at failed
  cases result with
  | ok b => cases failed
  | error thrown =>
      cases failed
      rfl

end Procedure
