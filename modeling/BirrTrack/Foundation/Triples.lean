import BirrTrack.Foundation.Procedure

/-! # Pre- and postconditions of procedures

A procedure meets a specification when, from every state that satisfies the precondition, it
returns what the postcondition allows or throws a failure of the given kind. One rule for each
way to build a procedure derives the specification of a whole from those of its parts.
-/

namespace Procedure

variable {State Failure α β : Type} {pre : State → Prop} {thrown : Failure → Prop}

structure Meets (pre : State → Prop) (procedure : Procedure State Failure α)
    (post : α → State → Prop) (thrown : Failure → Prop) : Prop where
  returns : ∀ {state a after}, pre state → run procedure state = (.ok a, after) → post a after
  throws : ∀ {state failure after}, pre state → run procedure state = (.error failure, after) →
    thrown failure

/-- A result meets what already holds of it. -/
theorem Meets.pure {a : α} {post : α → State → Prop} (holds : ∀ state, pre state → post a state) :
    Meets pre (pure a : Procedure State Failure α) post thrown where
  returns given ran := by
    cases ran
    exact holds _ given
  throws _ ran := by cases ran

/-- A failure that the contract names may be thrown. -/
theorem Meets.throw {failure : Failure} {post : α → State → Prop}
    (kind : ∀ state, pre state → thrown failure) :
    Meets pre (throw failure : Procedure State Failure α) post thrown where
  returns _ ran := by cases ran
  throws given ran := by
    cases ran
    exact kind _ given

/-- Contracts compose over a state in between. -/
theorem Meets.bind {first : Procedure State Failure α} {second : α → Procedure State Failure β}
    {middle : α → State → Prop} {post : β → State → Prop} (before : Meets pre first middle thrown)
    (next : ∀ a, Meets (middle a) (second a) post thrown) :
    Meets pre (first >>= second) post thrown where
  returns given ran := by
    obtain ⟨a, between, ranFirst, ranSecond⟩ := run_bind_eq_ok.mp ran
    exact (next a).returns (before.returns given ranFirst) ranSecond
  throws {state failure after} given ran := by
    rw [run_bind] at ran
    rcases ranFirst : run first state with ⟨result, between⟩
    rw [ranFirst] at ran
    cases result with
    | ok a => exact (next a).throws (before.returns given ranFirst) ran
    | error failure =>
        cases ran
        exact before.throws given ranFirst

/-- A statement meets a contract that holds of its result and names its failure. -/
theorem Meets.statement {effect : State → Except Failure (α × State)} {post : α → State → Prop}
    (done : ∀ {state a after}, pre state → effect state = .ok (a, after) → post a after)
    (failed : ∀ {state failure}, pre state → effect state = .error failure → thrown failure) :
    Meets pre (statement effect) post thrown where
  returns {state a after} given ran := by
    cases effected : effect state with
    | ok result =>
        rw [run_statement_ok effected] at ran
        cases ran
        exact done given effected
    | error failure =>
        rw [run_statement_error effected] at ran
        cases ran
  throws {state failure after} given ran := by
    cases effected : effect state with
    | ok result =>
        rw [run_statement_ok effected] at ran
        cases ran
    | error failure =>
        rw [run_statement_error effected] at ran
        cases ran
        exact failed given effected

/-- A query meets a contract about the state it leaves as it is. -/
theorem Meets.query {read : State → Except Failure α} {post : α → State → Prop}
    (done : ∀ {state a}, pre state → read state = .ok a → post a state)
    (failed : ∀ {state failure}, pre state → read state = .error failure → thrown failure) :
    Meets pre (query read) post thrown where
  returns given ran := by
    obtain ⟨answered, rfl⟩ := Prod.mk.inj ran
    exact done given answered
  throws given ran := failed given (Prod.mk.inj ran).1

/-- A loop keeps what every round keeps. -/
theorem Meets.forM {list : List α} {body : α → Procedure State Failure Unit}
    (each : ∀ a ∈ list, Meets pre (body a) (fun _ => pre) thrown) :
    Meets pre (forM list body) (fun _ => pre) thrown := by
  induction list with
  | nil => exact .pure fun _ given => given
  | cons a list ih =>
      rw [List.forM_cons]
      refine (each a List.mem_cons_self).bind fun _ => ?_
      exact ih fun b member => each b (List.mem_cons_of_mem a member)

/-- A transaction throws what its steps throw. -/
theorem run_of_transaction_error {procedure : Procedure State Failure α} {state after : State}
    {failure : Failure} (failed : run (transaction procedure) state = (.error failure, after)) :
    ∃ between, run procedure state = (.error failure, between) := by
  unfold run transaction at failed
  rcases ran : procedure.run state with ⟨result, between⟩
  rw [ran] at failed
  cases result with
  | ok a => cases failed
  | error thrown =>
      cases failed
      exact ⟨between, rfl⟩

/-- A transaction meets the contract of its procedure. -/
theorem Meets.transaction {procedure : Procedure State Failure α} {post : α → State → Prop}
    (meets : Meets pre procedure post thrown) : Meets pre (transaction procedure) post thrown where
  returns given ran := meets.returns given (run_transaction_eq_ok.mp ran)
  throws given ran := by
    obtain ⟨between, inner⟩ := run_of_transaction_error ran
    exact meets.throws given inner

end Procedure
