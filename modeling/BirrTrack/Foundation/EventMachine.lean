import Mathlib.Data.List.Induction

/-! # Machines driven by events

An event either moves a machine to its next state or is not enabled and has no
result. A run is a list of events. Two kinds of property are stated about a run:
one of every state it passes through (`EventMachine.Always`) and one of every step it
takes (`EventMachine.EachStep`). `EventMachine.always_eachStep_iff` reduces both to the
steps themselves: where a condition on the step decides whether a good state
stays good, it decides the same for whole runs.
-/

universe u v

/-- A machine whose events are enabled in some states and not in others. -/
structure EventMachine (State : Type u) (Event : Type v) where
  step : State → Event → Option State

namespace EventMachine

variable {State : Type u} {Event : Type v} (machine : EventMachine State Event)

/-- The state after a list of events, when each of them is enabled in its turn. -/
def run : State → List Event → Option State
  | state, [] => some state
  | state, event :: events => (machine.step state event).bind fun next => run next events

@[simp] theorem run_nil (state : State) : machine.run state [] = some state := rfl

theorem run_cons (state : State) (event : Event) (events : List Event) :
    machine.run state (event :: events) =
      (machine.step state event).bind fun next => machine.run next events := rfl

theorem run_cons_of_step {state next : State} {event : Event} (events : List Event)
    (step : machine.step state event = some next) :
    machine.run state (event :: events) = machine.run next events := by
  rw [run_cons, step, Option.bind_some]

theorem run_append (state : State) (front back : List Event) :
    machine.run state (front ++ back) =
      (machine.run state front).bind fun middle => machine.run middle back := by
  induction front generalizing state with
  | nil => rfl
  | cons event front ih =>
      cases step : machine.step state event with
      | none => simp only [List.cons_append, run_cons, step, Option.bind_none]
      | some next =>
          simp only [List.cons_append, run_cons_of_step machine _ step]
          exact ih next

/-- A run splits at any point into the run before it and the run after it. -/
theorem run_append_eq_some {state final : State} {front back : List Event}
    (reached : machine.run state (front ++ back) = some final) :
    ∃ middle, machine.run state front = some middle ∧ machine.run middle back = some final := by
  rw [run_append] at reached
  exact Option.bind_eq_some_iff.mp reached

/-- The machine whose events stand for events of another. -/
def comap {Other : Type*} (translate : Other → Event) : EventMachine State Other where
  step state event := machine.step state (translate event)

theorem run_comap {Other : Type*} (translate : Other → Event) (state : State)
    (events : List Other) :
    (machine.comap translate).run state events = machine.run state (events.map translate) := by
  induction events generalizing state with
  | nil => rfl
  | cons event events ih =>
      rw [List.map_cons, run_cons, run_cons]
      exact congrArg (Option.bind _) (funext ih)

/-- `property` holds in every state the run passes through, its first and its
last included. -/
def Always (property : State → Prop) (start : State) (events : List Event) : Prop :=
  ∀ front, front <+: events → ∀ reached, machine.run start front = some reached →
    property reached

/-- `relation` holds of every step the run takes, between the state before it,
its event and the state after it. -/
def EachStep (relation : State → Event → State → Prop) (start : State)
    (events : List Event) : Prop :=
  ∀ front event, front ++ [event] <+: events → ∀ before after,
    machine.run start front = some before → machine.step before event = some after →
      relation before event after

variable {machine}

theorem always_nil {property : State → Prop} {start : State} :
    machine.Always property start [] ↔ property start := by
  refine ⟨?_, ?_⟩
  · intro always
    exact always [] (List.prefix_refl _) start rfl
  · intro initially front isPrefix reached run
    rw [List.prefix_nil.mp isPrefix] at run
    cases run
    exact initially

theorem always_cons {property : State → Prop} {start : State} {event : Event}
    {events : List Event} :
    machine.Always property start (event :: events) ↔
      property start ∧ ∀ next, machine.step start event = some next →
        machine.Always property next events := by
  refine ⟨?_, ?_⟩
  · intro always
    refine ⟨always [] List.nil_prefix start rfl, ?_⟩
    intro next step front isPrefix reached run
    exact always (event :: front) (List.cons_prefix_cons.mpr ⟨rfl, isPrefix⟩) reached
      ((machine.run_cons_of_step front step).trans run)
  · rintro ⟨initially, later⟩ front isPrefix reached run
    cases front with
    | nil => cases run; exact initially
    | cons first front =>
        obtain ⟨rfl, shorter⟩ := List.cons_prefix_cons.mp isPrefix
        obtain ⟨next, step, run⟩ := Option.bind_eq_some_iff.mp run
        exact later next step front shorter reached run

theorem eachStep_nil {relation : State → Event → State → Prop} {start : State} :
    machine.EachStep relation start [] := by
  intro front event isPrefix
  exact absurd (List.prefix_nil.mp isPrefix) (by simp)

theorem eachStep_cons {relation : State → Event → State → Prop} {start : State}
    {event : Event} {events : List Event} :
    machine.EachStep relation start (event :: events) ↔
      ∀ next, machine.step start event = some next →
        relation start event next ∧ machine.EachStep relation next events := by
  refine ⟨?_, ?_⟩
  · intro each next step
    refine ⟨each [] event (by simp) start next rfl step, ?_⟩
    intro front later isPrefix before after run taken
    exact each (event :: front) later (List.cons_prefix_cons.mpr ⟨rfl, isPrefix⟩) before after
      ((machine.run_cons_of_step front step).trans run) taken
  · intro each front later isPrefix before after run taken
    cases front with
    | nil =>
        cases run
        obtain ⟨rfl, -⟩ := List.cons_prefix_cons.mp isPrefix
        exact (each after taken).1
    | cons first front =>
        obtain ⟨rfl, shorter⟩ := List.cons_prefix_cons.mp isPrefix
        obtain ⟨next, step, run⟩ := Option.bind_eq_some_iff.mp run
        exact (each next step).2 front later shorter before after run taken

/-- Suppose that, in good states whose past satisfies `history`, a step leads to
a good state in the required way exactly when `condition` holds of it. Then a
run from a good state stays good throughout exactly when each of its steps meets
`condition`. -/
theorem always_eachStep_iff {history good : State → Prop}
    {relation : State → Event → State → Prop} {condition : State → Event → Prop}
    (keeps : ∀ state event next, history state → machine.step state event = some next →
      history next)
    (decides : ∀ state event next, history state → good state →
      machine.step state event = some next →
        (good next ∧ relation state event next ↔ condition state event))
    {start : State} {events : List Event} (past : history start) (initially : good start) :
    machine.Always good start events ∧ machine.EachStep relation start events ↔
      machine.EachStep (fun state event _ => condition state event) start events := by
  induction events generalizing start with
  | nil =>
      simp only [always_nil, eachStep_nil, initially, and_self]
  | cons event events ih =>
      simp only [always_cons, eachStep_cons, initially, true_and]
      refine ⟨?_, ?_⟩
      · rintro ⟨always, each⟩ next step
        have nextGood : good next := by
          simpa using always next step [] List.nil_prefix next rfl
        refine ⟨(decides start event next past initially step).mp
          ⟨nextGood, (each next step).1⟩, ?_⟩
        exact (ih (keeps start event next past step) nextGood).mp
          ⟨always next step, (each next step).2⟩
      · intro each
        have reached : ∀ next, machine.step start event = some next →
            (machine.Always good next events ∧ machine.EachStep relation next events) ∧
              relation start event next := by
          intro next step
          obtain ⟨nextGood, related⟩ :=
            (decides start event next past initially step).mpr (each next step).1
          exact ⟨(ih (keeps start event next past step) nextGood).mpr (each next step).2, related⟩
        exact ⟨fun next step => (reached next step).1.1,
          fun next step => ⟨(reached next step).2, (reached next step).1.2⟩⟩

/-- The same for the states alone. -/
theorem always_iff {history good : State → Prop} {condition : State → Event → Prop}
    (keeps : ∀ state event next, history state → machine.step state event = some next →
      history next)
    (decides : ∀ state event next, history state → good state →
      machine.step state event = some next → (good next ↔ condition state event))
    {start : State} {events : List Event} (past : history start) (initially : good start) :
    machine.Always good start events ↔
      machine.EachStep (fun state event _ => condition state event) start events := by
  have decides' : ∀ state event next, history state → good state →
      machine.step state event = some next → (good next ∧ True ↔ condition state event) := by
    intro state event next past good step
    rw [and_true]
    exact decides state event next past good step
  rw [← always_eachStep_iff keeps decides' past initially]
  exact (and_iff_left fun _ _ _ _ _ _ _ => trivial).symm

/-! ## Induction along a run -/

theorem run_concat_eq_some {start final : State} {events : List Event} {event : Event} :
    machine.run start (events ++ [event]) = some final ↔ ∃ middle,
      machine.run start events = some middle ∧ machine.step middle event = some final := by
  simp only [run_append, run_cons, run_nil, Option.bind_eq_some_iff, Option.some_inj,
    exists_eq_right]

/-- What every step keeps, knowing the events before it, holds at the end of a run. -/
theorem run_history {start final : State} {events : List Event}
    (property : List Event → State → Prop) (initially : property [] start)
    (keeps : ∀ past state event next, property past state → machine.step state event = some next →
      property (past ++ [event]) next)
    (ran : machine.run start events = some final) : property events final := by
  induction events using List.reverseRecOn generalizing final with
  | nil =>
      cases ran
      exact initially
  | append_singleton past event ih =>
      obtain ⟨middle, before, step⟩ := run_concat_eq_some.mp ran
      exact keeps past middle event final (ih before) step

/-- An invariant of the steps is an invariant of the runs. -/
theorem run_invariant {start final : State} {events : List Event} {invariant : State → Prop}
    (keeps : ∀ state event next, invariant state → machine.step state event = some next →
      invariant next)
    (initially : invariant start) (ran : machine.run start events = some final) :
    invariant final :=
  run_history (fun _ state => invariant state) initially
    (fun _ state event next => keeps state event next) ran

/-- A preorder that relates the states around each step relates the ends of each run. -/
theorem run_related {start final : State} {events : List Event} {invariant : State → Prop}
    {relation : State → State → Prop} (reflexive : ∀ state, relation state state)
    (transitive : ∀ first second third, relation first second → relation second third →
      relation first third)
    (keeps : ∀ state event next, invariant state → machine.step state event = some next →
      invariant next)
    (related : ∀ state event next, invariant state → machine.step state event = some next →
      relation state next)
    (initially : invariant start) (ran : machine.run start events = some final) :
    relation start final := by
  refine (run_history (fun _ state => invariant state ∧ relation start state)
    ⟨initially, reflexive start⟩ ?_ ran).2
  intro _ state event next past step
  exact ⟨keeps state event next past.1 step,
    transitive start state next past.2 (related state event next past.1 step)⟩

end EventMachine
