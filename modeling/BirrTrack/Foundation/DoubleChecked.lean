import BirrTrack.Foundation.EventMachine
import Mathlib.Algebra.Order.Ring.Int
import Mathlib.Logic.Function.Basic

/-! # Double-checked initialization

Any number of threads call an accessor that creates a shared instance on its first use: it checks
a variable, takes a lock if the variable is unset, checks again, and creates and assigns the
instance if it still is. The reads and writes of different threads interleave in any order.

The value to return is read while the lock is held, or only after its release; `readsInside` says
which. Either way one instance is created at most, and every call that returns, returns it.
-/

namespace DoubleChecked

/-- Where a thread is in a call of the accessor. -/
inductive Phase (Instance Failure : Type) where
  | outside
  -- the variable was set at the first check
  | found
  -- it was not, and the lock is to be taken
  | missed
  -- the lock is held from here on
  | entered
  | creating
  | created (new : Instance)
  | assigned
  | leaving (read : Option Instance)
  | failing (failure : Failure)
  -- up to here
  | left

namespace Phase

variable {Instance Failure : Type}

def holdsLock : Phase Instance Failure → Bool
  | entered | creating | created _ | assigned | leaving _ | failing _ => true
  | _ => false

/-- The most steps that a call still takes. -/
def stepsLeft : Phase Instance Failure → ℕ
  | outside => 0
  | found => 1
  | missed => 6
  | entered => 5
  | creating => 4
  | created _ => 3
  | assigned => 2
  | leaving _ => 1
  | failing _ => 1
  | left => 1

end Phase

/-- The variable, the lock and the threads, with the instances created and the results of the
calls so far. -/
structure State (Thread Instance Failure : Type) where
  cell : Option Instance
  holder : Option Thread
  phase : Thread → Phase Instance Failure
  instances : List Instance
  results : List (Thread × Except Failure (Option Instance))

/-- A thread calls, takes the next step of its call, or is done with the creation. -/
inductive Event (Thread Instance Failure : Type) where
  | call (thread : Thread)
  | proceed (thread : Thread)
  | create (thread : Thread) (outcome : Except Failure Instance)

variable {Thread Instance Failure : Type}

def Event.isCall : Event Thread Instance Failure → Bool
  | .call _ => true
  | _ => false

def Event.thread : Event Thread Instance Failure → Thread
  | .call thread => thread
  | .proceed thread => thread
  | .create thread _ => thread

/-- An event in a call of the given thread, after its beginning. -/
def Event.isStepOf [DecidableEq Thread] (thread : Thread) (event : Event Thread Instance Failure) :
    Bool :=
  decide (event.thread = thread) && !event.isCall

/-- The instance that an event creates. -/
def Event.new : Event Thread Instance Failure → Option Instance
  | .create _ (.ok new) => some new
  | _ => none

/-- Nothing is created, and nobody has called. -/
def State.initial : State Thread Instance Failure := ⟨none, none, fun _ => .outside, [], []⟩

/-! ## The invariant -/

/-- What a thread's place in its call says about the variable and the instances created. -/
def Phase.Knows (cell : Option Instance) (instances : List Instance) :
    Phase Instance Failure → Prop
  | .creating => cell = none ∧ instances = []
  | .created new => cell = none ∧ instances = [new]
  | .found | .assigned | .left => cell.isSome = true
  | .leaving read => cell.isSome = true ∧ read = cell
  | _ => True

structure Sound (state : State Thread Instance Failure) : Prop where
  locked : ∀ thread, (state.phase thread).holdsLock = true ↔ state.holder = some thread
  knows : ∀ thread, (state.phase thread).Knows state.cell state.instances
  single : state.instances = state.cell.toList ∨
    ∃ thread new, state.phase thread = .created new
  results : ∀ thread read, (thread, .ok read) ∈ state.results →
    state.cell.isSome = true ∧ read = state.cell

section Invariant

variable {state : State Thread Instance Failure} {thread other : Thread}

theorem sound_initial : Sound (State.initial : State Thread Instance Failure) where
  locked _ := iff_of_false Bool.false_ne_true (Option.some_ne_none _).symm
  knows _ := trivial
  single := Or.inl rfl
  results _ _ member := absurd member List.not_mem_nil

/-- Two threads that hold the lock are one. -/
theorem Sound.exclusive (sound : Sound state) (holds : (state.phase thread).holdsLock = true)
    (holds' : (state.phase other).holdsLock = true) : other = thread :=
  Option.some.inj (((sound.locked other).mp holds').symm.trans ((sound.locked thread).mp holds))

/-- While a thread holds the lock and has created nothing, the instances are the variable's. -/
theorem Sound.instances_eq (sound : Sound state) (holds : (state.phase thread).holdsLock = true)
    (nothing : ∀ new, state.phase thread ≠ .created new) :
    state.instances = state.cell.toList := by
  rcases sound.single with same | ⟨other, new, created⟩
  · exact same
  · have holds' : (state.phase other).holdsLock = true := by
      rw [created]
      rfl
    exact absurd (sound.exclusive holds holds' ▸ created) (nothing new)

theorem results_append {result : Except Failure (Option Instance)}
    (outcome : ∀ read, result = .ok read → state.cell.isSome = true ∧ read = state.cell) :
    ∀ other read, (other, .ok read) ∈ state.results ++ [(thread, result)] →
      (other, .ok read) ∈ state.results ∨ state.cell.isSome = true ∧ read = state.cell := by
  intro other read member
  rcases List.mem_append.mp member with earlier | last
  · exact Or.inl earlier
  · rw [List.mem_singleton, Prod.mk.injEq] at last
    exact Or.inr (outcome read last.2.symm)

end Invariant

/-! ## The accessor -/

section Machine

variable [DecidableEq Thread]

namespace State

variable (state : State Thread Instance Failure) (thread : Thread)

def move (phase : Phase Instance Failure) : State Thread Instance Failure :=
  { state with phase := Function.update state.phase thread phase }

def finish (result : Except Failure (Option Instance)) : State Thread Instance Failure :=
  { state.move thread .outside with results := state.results ++ [(thread, result)] }

def release : State Thread Instance Failure := { state with holder := none }

end State

variable (readsInside : Bool)

def proceed (state : State Thread Instance Failure) (thread : Thread) :
    Option (State Thread Instance Failure) :=
  match state.phase thread with
  | .found => some (state.finish thread (.ok state.cell))
  | .missed =>
      if state.holder = none then some ({ state with holder := some thread }.move thread .entered)
      else none
  | .entered => some (state.move thread (if state.cell.isSome then .assigned else .creating))
  | .created new => some ({ state with cell := some new }.move thread .assigned)
  | .assigned =>
      some (if readsInside then state.move thread (.leaving state.cell)
        else state.release.move thread .left)
  | .leaving read => some (state.release.finish thread (.ok read))
  | .failing failure => some (state.release.finish thread (.error failure))
  | .left => some (state.finish thread (.ok state.cell))
  | _ => none

def accessor : EventMachine (State Thread Instance Failure) (Event Thread Instance Failure) where
  step state
    | .call thread =>
        match state.phase thread with
        | .outside => some (state.move thread (if state.cell.isSome then .found else .missed))
        | _ => none
    | .proceed thread => proceed readsInside state thread
    | .create thread outcome =>
        match state.phase thread, outcome with
        | .creating, .ok new =>
            some { state.move thread (.created new) with instances := state.instances ++ [new] }
        | .creating, .error failure => some (state.move thread (.failing failure))
        | _, _ => none

section Steps

variable {readsInside} {state next : State Thread Instance Failure} {thread other : Thread}
  {phase : Phase Instance Failure}

theorem State.move_self (state : State Thread Instance Failure) (thread : Thread)
    (phase : Phase Instance Failure) : (state.move thread phase).phase thread = phase :=
  Function.update_self ..

theorem State.move_of_ne (apart : other ≠ thread) :
    (state.move thread phase).phase other = state.phase other :=
  Function.update_of_ne apart ..

/-- A step of one thread, after which the others know what they have to. -/
theorem sound_of_update
    (moved : next.phase = Function.update state.phase thread phase)
    (locked : ∀ other, (next.phase other).holdsLock = true ↔ next.holder = some other)
    (known : phase.Knows next.cell next.instances)
    (kept : ∀ other, other ≠ thread → (state.phase other).Knows next.cell next.instances)
    (single : (next.instances = next.cell.toList ∨ ∃ new, phase = .created new) ∨
      ∃ other, other ≠ thread ∧ ∃ new, state.phase other = .created new)
    (results : ∀ thread read, (thread, .ok read) ∈ next.results →
      next.cell.isSome = true ∧ read = next.cell) : Sound next where
  locked := locked
  knows other := by
    rw [moved]
    by_cases here : other = thread
    · rw [here, Function.update_self]
      exact known
    · rw [Function.update_of_ne here]
      exact kept other here
  single := by
    rcases single with (same | ⟨new, created⟩) | ⟨other, apart, new, created⟩
    · exact Or.inl same
    · exact Or.inr ⟨thread, new, by rw [moved, Function.update_self, created]⟩
    · exact Or.inr ⟨other, new, by rw [moved, Function.update_of_ne apart, created]⟩
  results := results

/-- A step that touches neither the variable nor the instances. -/
theorem Sound.keep (sound : Sound state)
    (moved : next.phase = Function.update state.phase thread phase)
    (locked : ∀ other, (next.phase other).holdsLock = true ↔ next.holder = some other)
    (cell : next.cell = state.cell) (instances : next.instances = state.instances)
    (known : phase.Knows state.cell state.instances)
    (before : ∀ new, state.phase thread ≠ .created new)
    (results : ∀ thread read, (thread, .ok read) ∈ next.results →
      (thread, .ok read) ∈ state.results ∨ state.cell.isSome = true ∧ read = state.cell) :
    Sound next := by
  refine sound_of_update moved locked ?_ ?_ ?_ ?_
  · rw [cell, instances]
    exact known
  · intro other _
    rw [cell, instances]
    exact sound.knows other
  · rw [cell, instances]
    rcases sound.single with same | ⟨other, new, created⟩
    · exact Or.inl (Or.inl same)
    · exact Or.inr ⟨other, fun here => before new (here ▸ created), new, created⟩
  · intro other read member
    rw [cell]
    rcases results other read member with earlier | last
    · exact sound.results other read earlier
    · exact last

/-- The lock stays with whom it was. -/
theorem Sound.locked_same (sound : Sound state)
    (moved : next.phase = Function.update state.phase thread phase)
    (holder : next.holder = state.holder)
    (same : phase.holdsLock = (state.phase thread).holdsLock) (other : Thread) :
    (next.phase other).holdsLock = true ↔ next.holder = some other := by
  rw [moved, holder, ← sound.locked other]
  by_cases here : other = thread
  · rw [here, Function.update_self, same]
  · rw [Function.update_of_ne here]

/-- A thread takes the lock while it is free. -/
theorem Sound.locked_acquire (sound : Sound state)
    (moved : next.phase = Function.update state.phase thread phase)
    (free : state.holder = none) (holder : next.holder = some thread)
    (holds : phase.holdsLock = true) (other : Thread) :
    (next.phase other).holdsLock = true ↔ next.holder = some other := by
  rw [moved, holder]
  by_cases here : other = thread
  · rw [here, Function.update_self]
    exact iff_of_true holds rfl
  · rw [Function.update_of_ne here, sound.locked other, free]
    exact iff_of_false (Option.some_ne_none _).symm fun same => here (Option.some.inj same).symm

/-- The thread that holds the lock gives it back. -/
theorem Sound.locked_release (sound : Sound state)
    (moved : next.phase = Function.update state.phase thread phase)
    (held : (state.phase thread).holdsLock = true) (holder : next.holder = none)
    (holds : phase.holdsLock = false) (other : Thread) :
    (next.phase other).holdsLock = true ↔ next.holder = some other := by
  rw [moved, holder]
  refine iff_of_false ?_ (Option.some_ne_none _).symm
  by_cases here : other = thread
  · rw [here, Function.update_self, holds]
    exact Bool.false_ne_true
  · rw [Function.update_of_ne here]
    exact fun holds' => here (sound.exclusive held holds')

theorem sound_proceed (sound : Sound state)
    (step : proceed readsInside state thread = some next) : Sound next := by
  have knows := sound.knows thread
  unfold proceed at step
  split at step
  next found =>
    cases step
    rw [found] at knows
    exact sound.keep rfl (sound.locked_same rfl rfl (by rw [found]; rfl)) rfl rfl trivial
      (by rw [found]; exact nofun)
      (results_append fun read same => ⟨knows, (Except.ok.inj same).symm⟩)
  next missed =>
    split at step
    next free =>
      cases step
      exact sound.keep rfl (sound.locked_acquire rfl free rfl rfl) rfl rfl trivial
        (by rw [missed]; exact nofun) fun _ _ => Or.inl
    next => cases step
  next entered =>
    cases step
    have holds : (state.phase thread).holdsLock = true := by rw [entered]; rfl
    have before : ∀ new, state.phase thread ≠ .created new := by rw [entered]; exact nofun
    have instances := sound.instances_eq holds before
    refine sound.keep rfl (sound.locked_same rfl rfl ?_) rfl rfl ?_ before fun _ _ => Or.inl
    · rw [holds]
      split <;> rfl
    · split
      next set => exact set
      next unset =>
        have none : state.cell = none := by simpa using unset
        exact ⟨none, by rw [instances, none]; rfl⟩
  next new created =>
    cases step
    rw [created] at knows
    obtain ⟨unset, instances⟩ := knows
    have holds : (state.phase thread).holdsLock = true := by rw [created]; rfl
    refine sound_of_update rfl (sound.locked_same rfl rfl (by rw [holds]; rfl)) rfl ?_
      (Or.inl (Or.inl instances)) ?_
    · intro other apart
      have known := sound.knows other
      have free : (state.phase other).holdsLock = false := by
        rw [← Bool.not_eq_true]
        exact fun holds' => apart (sound.exclusive holds holds')
      cases phase : state.phase other with
      | found => rfl
      | left => rfl
      | outside => trivial
      | missed => trivial
      | _ =>
          rw [phase] at free
          cases free
    · intro other read member
      have set := (sound.results other read member).1
      rw [unset] at set
      cases set
  next assigned =>
    cases step
    rw [assigned] at knows
    have holds : (state.phase thread).holdsLock = true := by rw [assigned]; rfl
    have before : ∀ new, state.phase thread ≠ .created new := by rw [assigned]; exact nofun
    split
    next =>
      exact sound.keep rfl (sound.locked_same rfl rfl (by rw [holds]; rfl)) rfl rfl
        ⟨knows, rfl⟩ before fun _ _ => Or.inl
    next =>
      exact sound.keep rfl (sound.locked_release rfl holds rfl rfl) rfl rfl knows before
        fun _ _ => Or.inl
  next read leaving =>
    cases step
    rw [leaving] at knows
    exact sound.keep rfl (sound.locked_release rfl (by rw [leaving]; rfl) rfl rfl) rfl rfl trivial
      (by rw [leaving]; exact nofun)
      (results_append fun other same => ⟨knows.1, (Except.ok.inj same).symm.trans knows.2⟩)
  next failure failing =>
    cases step
    exact sound.keep rfl (sound.locked_release rfl (by rw [failing]; rfl) rfl rfl) rfl rfl trivial
      (by rw [failing]; exact nofun) (results_append fun _ same => nomatch same)
  next left =>
    cases step
    rw [left] at knows
    exact sound.keep rfl (sound.locked_same rfl rfl (by rw [left]; rfl)) rfl rfl trivial
      (by rw [left]; exact nofun)
      (results_append fun read same => ⟨knows, (Except.ok.inj same).symm⟩)
  next => cases step

theorem sound_step {event : Event Thread Instance Failure} (sound : Sound state)
    (step : (accessor readsInside).step state event = some next) : Sound next := by
  cases event with
  | call thread =>
      simp only [accessor] at step
      split at step
      next outside =>
        cases step
        refine sound.keep rfl (sound.locked_same rfl rfl ?_) rfl rfl ?_
          (by rw [outside]; exact nofun) fun _ _ => Or.inl
        · rw [outside]
          split <;> rfl
        · split
          next set => exact set
          next => exact trivial
      next => cases step
  | proceed thread => exact sound_proceed sound step
  | create thread outcome =>
      simp only [accessor] at step
      have knows := sound.knows thread
      split at step
      next new creating =>
        cases step
        rw [creating] at knows
        obtain ⟨unset, instances⟩ := knows
        have holds : (state.phase thread).holdsLock = true := by rw [creating]; rfl
        refine sound_of_update rfl (sound.locked_same rfl rfl (by rw [holds]; rfl)) ?_ ?_
          (Or.inl (Or.inr ⟨new, rfl⟩)) sound.results
        · exact ⟨unset, by rw [instances]; rfl⟩
        · intro other apart
          have known := sound.knows other
          have free : (state.phase other).holdsLock = false := by
            rw [← Bool.not_eq_true]
            exact fun holds' => apart (sound.exclusive holds holds')
          cases phase : state.phase other with
          | creating | created =>
              rw [phase] at free
              cases free
          | _ =>
              rw [phase] at known
              exact known
      next failure creating =>
        cases step
        exact sound.keep rfl (sound.locked_same rfl rfl (by rw [creating]; rfl)) rfl rfl trivial
          (by rw [creating]; exact nofun) fun _ _ => Or.inl
      next => cases step

theorem sound_run {events : List (Event Thread Instance Failure)}
    (ran : (accessor readsInside).run .initial events = some state) : Sound state :=
  EventMachine.run_invariant (fun _ _ _ sound step => sound_step sound step) sound_initial ran

omit [DecidableEq Thread] in
/-- What is in the variable is all that was created. -/
theorem Sound.instances_of_cell {only : Instance} (sound : Sound state)
    (cell : state.cell = some only) : state.instances = [only] := by
  rcases sound.single with same | ⟨thread, new, created⟩
  · rw [same, cell]
    rfl
  · have knows := sound.knows thread
    rw [created] at knows
    rw [knows.1] at cell
    cases cell

/-- One instance at most, for every interleaving of any number of calls: two threads never create
at once, and whatever a call returns is the instance in the variable, the only one created. -/
theorem run_single {events : List (Event Thread Instance Failure)}
    (ran : (accessor readsInside).run .initial events = some state) :
    (∀ first second, (state.phase first).holdsLock = true →
        (state.phase second).holdsLock = true → first = second) ∧
      state.instances.length ≤ 1 ∧
      ∀ thread read, (thread, .ok read) ∈ state.results →
        ∃ only, read = some only ∧ state.instances = [only] ∧ state.cell = some only := by
  have sound := sound_run ran
  refine ⟨fun _ _ holds holds' => sound.exclusive holds' holds, ?_, ?_⟩
  · rcases sound.single with same | ⟨thread, new, created⟩
    · rw [same]
      cases state.cell <;> simp
    · have knows := sound.knows thread
      rw [created] at knows
      rw [knows.2, List.length_singleton]
  · intro thread read member
    obtain ⟨set, same⟩ := sound.results thread read member
    obtain ⟨only, cell⟩ := Option.isSome_iff_exists.mp set
    exact ⟨only, same.trans cell, sound.instances_of_cell cell, cell⟩

/-! ## Where instances and failures come from -/

/-- Instances are created, and failures are raised, by creations of the run. -/
structure Sourced (past : List (Event Thread Instance Failure))
    (state : State Thread Instance Failure) : Prop where
  instances : state.instances = past.filterMap Event.new
  failing : ∀ thread failure, state.phase thread = .failing failure →
    .create thread (.error failure) ∈ past
  results : ∀ thread failure, (thread, .error failure) ∈ state.results →
    .create thread (.error failure) ∈ past

section Sources

variable {past : List (Event Thread Instance Failure)} {event : Event Thread Instance Failure}

/-- A step that creates nothing and in which nothing fails. -/
theorem Sourced.keep (sourced : Sourced past state)
    (moved : next.phase = Function.update state.phase thread phase)
    (instances : next.instances = state.instances) (nothing : event.new = none)
    (works : ∀ failure, phase ≠ .failing failure)
    (results : ∀ other failure, (other, .error failure) ∈ next.results →
      (other, .error failure) ∈ state.results ∨
        other = thread ∧ state.phase thread = .failing failure) :
    Sourced (past ++ [event]) next where
  instances := by
    rw [instances, sourced.instances, List.filterMap_append, List.filterMap_cons_none nothing,
      List.filterMap_nil, List.append_nil]
  failing other failure failing := by
    rw [moved] at failing
    by_cases here : other = thread
    · rw [here, Function.update_self] at failing
      exact absurd failing (works failure)
    · rw [Function.update_of_ne here] at failing
      exact List.mem_append_left _ (sourced.failing other failure failing)
  results other failure member := by
    refine List.mem_append_left _ ?_
    rcases results other failure member with earlier | ⟨rfl, failing⟩
    · exact sourced.results other failure earlier
    · exact sourced.failing other failure failing

omit [DecidableEq Thread] in
theorem results_finish {read : Option Instance} {other : Thread} {failure : Failure}
    (member : (other, .error failure) ∈ state.results ++ [(thread, .ok read)]) :
    (other, .error failure) ∈ state.results ∨
      other = thread ∧ state.phase thread = .failing failure := by
  rcases List.mem_append.mp member with earlier | last
  · exact Or.inl earlier
  · rw [List.mem_singleton, Prod.mk.injEq] at last
    cases last.2

theorem sourced_proceed (sourced : Sourced past state)
    (step : proceed readsInside state thread = some next) :
    Sourced (past ++ [.proceed thread]) next := by
  unfold proceed at step
  split at step
  next found =>
    cases step
    exact sourced.keep rfl rfl rfl nofun fun _ _ => results_finish
  next missed =>
    split at step
    next =>
      cases step
      exact sourced.keep rfl rfl rfl nofun fun _ _ => Or.inl
    next => cases step
  next entered =>
    cases step
    refine sourced.keep rfl rfl rfl ?_ fun _ _ => Or.inl
    intro failure
    split <;> exact nofun
  next new created =>
    cases step
    exact sourced.keep rfl rfl rfl nofun fun _ _ => Or.inl
  next assigned =>
    cases step
    split
    next => exact sourced.keep rfl rfl rfl nofun fun _ _ => Or.inl
    next => exact sourced.keep rfl rfl rfl nofun fun _ _ => Or.inl
  next read leaving =>
    cases step
    exact sourced.keep rfl rfl rfl nofun fun _ _ => results_finish
  next failure failing =>
    cases step
    refine sourced.keep rfl rfl rfl nofun ?_
    intro other failure' member
    rcases List.mem_append.mp member with earlier | last
    · exact Or.inl earlier
    · rw [List.mem_singleton, Prod.mk.injEq, Except.error.injEq] at last
      obtain ⟨rfl, rfl⟩ := last
      exact Or.inr ⟨rfl, failing⟩
  next left =>
    cases step
    exact sourced.keep rfl rfl rfl nofun fun _ _ => results_finish
  next => cases step

theorem sourced_step (sourced : Sourced past state)
    (step : (accessor readsInside).step state event = some next) :
    Sourced (past ++ [event]) next := by
  cases event with
  | call thread =>
      simp only [accessor] at step
      split at step
      next =>
        cases step
        refine sourced.keep rfl rfl rfl ?_ fun _ _ => Or.inl
        intro failure
        split <;> exact nofun
      next => cases step
  | proceed thread => exact sourced_proceed sourced step
  | create thread outcome =>
      simp only [accessor] at step
      split at step
      next new creating =>
        cases step
        refine ⟨?_, ?_, ?_⟩
        · rw [List.filterMap_append, ← sourced.instances]
          rfl
        · intro other failure failing
          by_cases here : other = thread
          · rw [here, State.move_self] at failing
            cases failing
          · rw [State.move_of_ne here] at failing
            exact List.mem_append_left _ (sourced.failing other failure failing)
        · intro other failure member
          exact List.mem_append_left _ (sourced.results other failure member)
      next failure creating =>
        cases step
        refine ⟨?_, ?_, ?_⟩
        · rw [List.filterMap_append, ← sourced.instances]
          exact (List.append_nil _).symm
        · intro other failure' failing
          by_cases here : other = thread
          · rw [here, State.move_self, Phase.failing.injEq] at failing
            rw [here, failing]
            exact List.mem_concat_self
          · rw [State.move_of_ne here] at failing
            exact List.mem_append_left _ (sourced.failing other failure' failing)
        · intro other failure' member
          exact List.mem_append_left _ (sourced.results other failure' member)
      next => cases step

omit [DecidableEq Thread] in
theorem sourced_initial : Sourced [] (State.initial : State Thread Instance Failure) where
  instances := rfl
  failing _ _ failing := by cases failing
  results _ _ member := absurd member List.not_mem_nil

theorem sourced_run {events : List (Event Thread Instance Failure)}
    (ran : (accessor readsInside).run .initial events = some state) : Sourced events state :=
  EventMachine.run_history Sourced sourced_initial
    (fun _ _ _ _ sourced step => sourced_step sourced step) ran

end Sources

/-! ## Progress -/

/-- The thread can take a step, which creates an instance if it has come to that. -/
def CanStep (readsInside : Bool) (state : State Thread Instance Failure) (thread : Thread)
    (outcome : Except Failure Instance) : Prop :=
  ((accessor readsInside).step state (.proceed thread)).isSome = true ∨
    ((accessor readsInside).step state (.create thread outcome)).isSome = true

/-- A thread in a call that does not wait for a lock that is taken can take a step. -/
theorem canStep_of_thread (busy : state.phase thread ≠ .outside)
    (free : state.phase thread ≠ .missed ∨ state.holder = none)
    (outcome : Except Failure Instance) : CanStep readsInside state thread outcome := by
  cases phase : state.phase thread with
  | outside => exact absurd phase busy
  | creating =>
      right
      cases outcome <;> simp only [accessor, phase, Option.isSome_some]
  | missed =>
      have unheld := free.resolve_left fun apart => apart phase
      left
      simp only [accessor, proceed, phase, unheld, ↓reduceIte, Option.isSome_some]
  | _ =>
      left
      simp only [accessor, proceed, phase, Option.isSome_some]

/-- While a call is in progress some thread can take a step, whatever a creation comes to. -/
theorem exists_canStep (sound : Sound state) (busy : ∃ thread, state.phase thread ≠ .outside)
    (outcome : Except Failure Instance) : ∃ thread, CanStep readsInside state thread outcome := by
  obtain ⟨thread, busy⟩ := busy
  cases holder : state.holder with
  | none => exact ⟨thread, canStep_of_thread busy (Or.inr holder) outcome⟩
  | some owner =>
      have holds := (sound.locked owner).mpr holder
      have inside : state.phase owner ≠ .outside ∧ state.phase owner ≠ .missed := by
        refine ⟨?_, ?_⟩ <;> (intro phase; rw [phase] at holds; cases holds)
      exact ⟨owner, canStep_of_thread inside.1 (Or.inl inside.2) outcome⟩

/-- Only its own thread moves in a step, towards the end of its call unless it begins one. -/
theorem moved_of_step {event : Event Thread Instance Failure}
    (step : (accessor readsInside).step state event = some next) :
    ∃ phase, next.phase = Function.update state.phase event.thread phase ∧
      phase.stepsLeft + (if event.isCall then 0 else 1) ≤
        (state.phase event.thread).stepsLeft + if event.isCall then 6 else 0 := by
  cases event with
  | call thread =>
      simp only [accessor] at step
      split at step
      next outside =>
        cases step
        refine ⟨_, rfl, ?_⟩
        split <;> simp only [Phase.stepsLeft, Event.isCall, ↓reduceIte] <;> omega
      next => cases step
  | proceed thread =>
      simp only [accessor] at step
      unfold proceed at step
      split at step
      next found =>
        cases step
        exact ⟨_, rfl, by simp [Event.thread, Event.isCall, found, Phase.stepsLeft]⟩
      next missed =>
        split at step
        next =>
          cases step
          exact ⟨_, rfl, by simp [Event.thread, Event.isCall, missed, Phase.stepsLeft]⟩
        next => cases step
      next entered =>
        cases step
        refine ⟨_, rfl, ?_⟩
        simp only [Event.thread, Event.isCall, entered]
        split <;> simp [Phase.stepsLeft]
      next new created =>
        cases step
        exact ⟨_, rfl, by simp [Event.thread, Event.isCall, created, Phase.stepsLeft]⟩
      next assigned =>
        cases step
        split
        next =>
          exact ⟨_, rfl, by simp [Event.thread, Event.isCall, assigned, Phase.stepsLeft]⟩
        next =>
          exact ⟨_, rfl, by simp [Event.thread, Event.isCall, assigned, Phase.stepsLeft]⟩
      next read leaving =>
        cases step
        exact ⟨_, rfl, by simp [Event.thread, Event.isCall, leaving, Phase.stepsLeft]⟩
      next failure failing =>
        cases step
        exact ⟨_, rfl, by simp [Event.thread, Event.isCall, failing, Phase.stepsLeft]⟩
      next left =>
        cases step
        exact ⟨_, rfl, by simp [Event.thread, Event.isCall, left, Phase.stepsLeft]⟩
      next => cases step
  | create thread outcome =>
      simp only [accessor] at step
      split at step
      next new creating =>
        cases step
        exact ⟨_, rfl, by simp [Event.thread, Event.isCall, creating, Phase.stepsLeft]⟩
      next failure creating =>
        cases step
        exact ⟨_, rfl, by simp [Event.thread, Event.isCall, creating, Phase.stepsLeft]⟩
      next => cases step

/-- A step of a thread's call leaves it fewer to take, and the other threads leave them alone. -/
theorem stepsLeft_step {event : Event Thread Instance Failure} (thread : Thread)
    (step : (accessor readsInside).step state event = some next) (noCall : event ≠ .call thread) :
    (next.phase thread).stepsLeft + (if event.isStepOf thread then 1 else 0) ≤
      (state.phase thread).stepsLeft := by
  obtain ⟨phase, moved, fewer⟩ := moved_of_step step
  rw [moved, Event.isStepOf]
  by_cases here : event.thread = thread
  · have isStep : event.isCall = false := by
      cases event with
      | call caller => exact absurd (congrArg Event.call here) noCall
      | proceed => rfl
      | create => rfl
    rw [isStep] at fewer ⊢
    simpa only [← here, Function.update_self, decide_true, Bool.not_false, Bool.and_self,
      Bool.false_eq_true, ↓reduceIte, Nat.add_zero] using fewer
  · rw [Function.update_of_ne (Ne.symm here), decide_eq_false here]
    simp only [Bool.false_and, Bool.false_eq_true, ↓reduceIte, Nat.add_zero, le_refl]

/-- Until a thread calls again it takes no more steps than it had left. -/
theorem steps_le {start : State Thread Instance Failure}
    {events : List (Event Thread Instance Failure)} {thread : Thread}
    (ran : (accessor readsInside).run start events = some state) (noCall : .call thread ∉ events) :
    (state.phase thread).stepsLeft + events.countP (Event.isStepOf thread) ≤
      (start.phase thread).stepsLeft := by
  induction events generalizing start with
  | nil =>
      cases ran
      rfl
  | cons event events ih =>
      rw [EventMachine.run_cons, Option.bind_eq_some_iff] at ran
      obtain ⟨middle, step, ran⟩ := ran
      have first := stepsLeft_step thread step fun same => noCall (same ▸ List.mem_cons_self)
      have others := ih ran fun member => noCall (List.mem_cons_of_mem _ member)
      rw [List.countP_cons]
      omega

/-- Before its first call a thread takes no step. -/
theorem run_idle {before after : List (Event Thread Instance Failure)} {thread : Thread}
    (ran : (accessor readsInside).run .initial (before ++ after) = some state)
    (noCall : .call thread ∉ before) : before.countP (Event.isStepOf thread) = 0 := by
  obtain ⟨middle, ranBefore, -⟩ := EventMachine.run_append_eq_some _ ran
  have steps : (middle.phase thread).stepsLeft + before.countP (Event.isStepOf thread) ≤ 0 :=
    steps_le ranBefore noCall
  omega

/-- A call takes six steps at most, whatever the other threads do in between. -/
theorem run_steps {before between after : List (Event Thread Instance Failure)} {thread : Thread}
    (ran : (accessor readsInside).run .initial (before ++ .call thread :: (between ++ after)) =
      some state)
    (noCall : .call thread ∉ between) : between.countP (Event.isStepOf thread) ≤ 6 := by
  obtain ⟨first, -, ran⟩ := EventMachine.run_append_eq_some _ ran
  rw [EventMachine.run_cons, Option.bind_eq_some_iff] at ran
  obtain ⟨second, called, ran⟩ := ran
  obtain ⟨third, ranBetween, -⟩ := EventMachine.run_append_eq_some _ ran
  have outside : first.phase thread = .outside := by
    simp only [accessor] at called
    split at called
    next outside => exact outside
    next => cases called
  obtain ⟨phase, moved, begun⟩ := moved_of_step called
  have started : (second.phase thread).stepsLeft ≤ 6 := by
    rw [moved, Event.thread, Function.update_self]
    simpa only [Event.thread, Event.isCall, outside, Phase.stepsLeft, ↓reduceIte, Nat.add_zero,
      Nat.zero_add] using begun
  have steps := steps_le ranBetween noCall
  omega

end Steps

end Machine

/-! ## Creation from what the creating thread sees -/

/-- The same events, with the creation computed from what it sees. -/
inductive Access (Thread World : Type) where
  | call (thread : Thread)
  | proceed (thread : Thread)
  | load (thread : Thread) (world : World)

namespace Access

variable {World : Type} (create : World → Except Failure Instance)

def toEvent : Access Thread World → Event Thread Instance Failure
  | call thread => .call thread
  | proceed thread => .proceed thread
  | load thread world => .create thread (create world)

/-- A load that succeeds. -/
def loads (access : Access Thread World) : Bool := (access.toEvent create).new.isSome

/-- A step of the given thread, after the beginning of its call. -/
def isStepOf [DecidableEq Thread] (thread : Thread) (access : Access Thread World) : Bool :=
  (access.toEvent create).isStepOf thread

end Access

section Singletons

variable [DecidableEq Thread] {World : Type} (readsInside : Bool)
  (create : World → Except Failure Instance)

/-- The accessor of an instance that is created from what the creating thread sees. -/
def shared : EventMachine (State Thread Instance Failure) (Access Thread World) :=
  (accessor readsInside).comap (Access.toEvent create)

variable {readsInside create} {state : State Thread Instance Failure}
  {accesses : List (Access Thread World)}

omit [DecidableEq Thread] in
theorem call_mem_toEvent {thread : Thread} :
    .call thread ∈ accesses.map (Access.toEvent create) ↔ .call thread ∈ accesses := by
  constructor
  · intro member
    obtain ⟨access, happened, same⟩ := List.mem_map.mp member
    cases access with
    | call =>
        cases same
        exact happened
    | proceed => cases same
    | load => cases same
  · exact fun member => List.mem_map_of_mem member

omit [DecidableEq Thread] in
theorem mem_toEvent {thread : Thread} {outcome : Except Failure Instance}
    (member : .create thread outcome ∈ accesses.map (Access.toEvent create)) :
    ∃ world, .load thread world ∈ accesses ∧ create world = outcome := by
  obtain ⟨access, happened, same⟩ := List.mem_map.mp member
  cases access with
  | call => cases same
  | proceed => cases same
  | load loader world =>
      cases same
      exact ⟨world, happened, rfl⟩

/-- One load succeeds at most; every call that returns, returns what it loaded, and every call
that fails, fails in a load of its own. No call takes more than six steps until its thread calls
again, and no thread takes a step before it calls. -/
structure CreatedOnce (create : World → Except Failure Instance)
    (accesses : List (Access Thread World)) (state : State Thread Instance Failure) : Prop where
  once : accesses.countP (Access.loads create) ≤ 1
  loaded : ∀ only, state.cell = some only → ∃ loader world,
    .load loader world ∈ accesses ∧ create world = .ok only
  returned : ∀ thread read, (thread, .ok read) ∈ state.results →
    state.cell.isSome = true ∧ read = state.cell
  failed : ∀ thread failure, (thread, .error failure) ∈ state.results →
    ∃ world, .load thread world ∈ accesses ∧ create world = .error failure
  bounded : ∀ thread before between after,
    accesses = before ++ .call thread :: (between ++ after) → .call thread ∉ between →
      between.countP (Access.isStepOf create thread) ≤ 6
  idle : ∀ thread before after, accesses = before ++ after → .call thread ∉ before →
    before.countP (Access.isStepOf create thread) = 0

theorem shared_run
    (ran : (shared readsInside create).run .initial accesses = some state) :
    CreatedOnce create accesses state := by
  rw [shared, EventMachine.run_comap] at ran
  have sound := sound_run ran
  have sourced := sourced_run ran
  obtain ⟨-, single, -⟩ := run_single ran
  refine ⟨?_, ?_, sound.results, ?_, ?_, ?_⟩
  · rw [sourced.instances, List.length_filterMap_eq_countP, List.countP_map] at single
    exact single
  · intro only cell
    have created : only ∈ (accesses.map (Access.toEvent create)).filterMap Event.new := by
      rw [← sourced.instances, sound.instances_of_cell cell]
      exact List.mem_singleton_self only
    obtain ⟨event, happened, new⟩ := List.mem_filterMap.mp created
    cases event with
    | call => cases new
    | proceed => cases new
    | create loader outcome =>
        cases outcome with
        | error => cases new
        | ok =>
            cases new
            obtain ⟨world, member, loaded⟩ := mem_toEvent happened
            exact ⟨loader, world, member, loaded⟩
  · intro thread failure member
    exact mem_toEvent (sourced.results thread failure member)
  · rintro thread before between after rfl noCall
    rw [List.map_append, List.map_cons, List.map_append] at ran
    have bounded := run_steps ran (mt call_mem_toEvent.mp noCall)
    rwa [List.countP_map] at bounded
  · rintro thread before after rfl noCall
    rw [List.map_append] at ran
    have idle := run_idle ran (mt call_mem_toEvent.mp noCall)
    rwa [List.countP_map] at idle

/-- While a call is in progress some thread can take a step, whatever a load would see. -/
theorem shared_progress (ran : (shared readsInside create).run .initial accesses = some state)
    (busy : ∃ thread, state.phase thread ≠ .outside) (world : World) :
    ∃ thread, ((shared readsInside create).step state (.proceed thread)).isSome = true ∨
      ((shared readsInside create).step state (.load thread world)).isSome = true := by
  rw [shared, EventMachine.run_comap] at ran
  exact exists_canStep (sound_run ran) busy (create world)

end Singletons

end DoubleChecked
