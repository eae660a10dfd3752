import BirrTrack.Application.Progress

/-! # Attempts that run alone

Taken step by step, without any other event in between, an attempt does to the database and to
the events what `processImageJob` does, and a job's attempts in turn do what `runAttempts` does.
-/

namespace BirrTrack.Application

open Processing Transactions

/-- The rest of an attempt from a call on. -/
def Pending.rest (server : Server) (attempt : Attempt) : Pending → Procedure World Failure Unit
  | findDuplicate receipt => recordReceipt server attempt receipt
  | create receipt => do
      let transaction ← disturbed (attempt.faults .create) <| inDb <|
        Transactions.create server.reader attempt.generated receipt
      disturbed (attempt.faults .emit) (emitTransactionNew (toResponse transaction))
  | emit transaction =>
      disturbed (attempt.faults .emit) (emitTransactionNew (toResponse transaction))

/-- A job whose attempt has ended. -/
def QueueJob.ended (job : QueueJob) : Except Failure Unit → QueueJob
  | .ok _ => { job with attemptsMade := job.attemptsMade + 1, status := .completed }
  | .error _ =>
      { job with
        attemptsMade := job.attemptsMade + 1
        status := if job.attemptsMade + 1 < DEFAULT_JOB_ATTEMPTS then .waiting else .failed }

/-- The attempts that are made of a list: the next one only after a failed one. -/
def madeAttempts (server : Server) (data : ImageProcessingJobPayload) :
    List Attempt → World → List Attempt
  | [], _ => []
  | attempt :: later, world =>
      match (processImageJob server attempt data).run world with
      | (.ok _, _) => [attempt]
      | (.error _, after) => attempt :: madeAttempts server data later after

/-- The last of the attempts that are made succeeds. -/
def succeeds (server : Server) (data : ImageProcessingJobPayload) : List Attempt → World → Bool
  | [], _ => false
  | attempt :: later, world =>
      match (processImageJob server attempt data).run world with
      | (.ok _, _) => true
      | (.error _, after) => succeeds server data later after

/-- A job that has been attempted that often since. -/
def QueueJob.attempted (job : QueueJob) (count : ℕ) (succeeded : Bool) : QueueJob :=
  { job with
    attemptsMade := job.attemptsMade + count
    status := if succeeded then .completed
      else if job.attemptsMade + count < DEFAULT_JOB_ATTEMPTS then .waiting else .failed }

/-- The steps of the worker that make an attempt with a number of calls. -/
def attemptSteps (index : ℕ) (attempt : Attempt) (calls : ℕ) : List SystemEvent :=
  .begin index attempt :: (List.replicate calls (.advance index) ++ [.settle index])

/-- The steps that make attempts one after the other. -/
def schedule (index : ℕ) (attempts : List (Attempt × ℕ)) : List SystemEvent :=
  attempts.flatMap fun made => attemptSteps index made.1 made.2

/-- The system with another world and another job at an index. -/
def System.put (system : System) (world : World) (index : ℕ) (job : QueueJob) : System :=
  { system with world := world, jobs := system.jobs.set index job }

/-- The steps of the attempts that `runAttempts` makes at the job of an index, each with some number
of calls, take the system to what `runAttempts` makes of the database and the events and to the job
with these attempts, and change nothing else. -/
def RunsAs (settings : Settings) (system : System) (index : ℕ) (job : QueueJob)
    (attempts : List Attempt) : Prop :=
  let made := madeAttempts settings.server job.data attempts system.world
  ∃ calls : List ℕ, calls.length = made.length ∧
    (application settings).run system (schedule index (made.zip calls)) =
      some (system.put (runAttempts settings.server job.data attempts system.world) index
        (job.attempted made.length (succeeds settings.server job.data attempts system.world)))

section Attempts

variable {settings : Settings} {server : Server} {attempt : Attempt} {system : System}
  {world : World} {index : ℕ} {job : QueueJob}

/-- A call, and then the rest from the call after it. -/
theorem run_rest (pending : Pending) :
    (pending.rest server attempt).run world =
      match (pending.run server attempt).run world with
      | (.ok (some later), after) => (later.rest server attempt).run after
      | (.ok none, after) => (.ok (), after)
      | (.error failure, after) => (.error failure, after) := by
  cases pending with
  | findDuplicate receipt =>
      rw [Pending.rest, recordReceipt, Pending.run, run_bind_pure, Procedure.run_bind]
      rcases (disturbed (attempt.faults .findDuplicate) (inDb (Transactions.findDuplicate
        server.reader receipt.transactionId receipt.amount receipt.timestamp))).run world with
        ⟨result, after⟩
      cases result <;> rfl
  | create receipt =>
      rw [Pending.rest, Pending.run, run_bind_pure, Procedure.run_bind]
      rcases (disturbed (attempt.faults .create) (inDb (Transactions.create server.reader
        attempt.generated receipt))).run world with ⟨result, after⟩
      cases result <;> rfl
  | emit transaction =>
      rw [Pending.rest, Pending.run, run_bind_pure]
      rcases (disturbed (attempt.faults .emit)
        (emitTransactionNew (toResponse transaction))).run world with ⟨result, after⟩
      cases result <;> rfl

theorem put_get (inside : index < system.jobs.length) :
    (system.put world index job).jobs[index]? = some job := by
  rw [System.put, List.getElem?_set_self inside]

theorem put_put {after : World} {other : QueueJob} :
    (system.put world index job).put after index other = system.put after index other := by
  simp only [System.put, List.set_set]

/-- A step of the attempt. -/
theorem step_advance {pending : Pending} (inside : index < system.jobs.length)
    (active : job.status = .active attempt (.calling pending)) :
    (application settings).step (system.put world index job) (.advance index) =
      some (system.put ((pending.run settings.server attempt).run world).2 index
        { job with
          status :=
            .active attempt (.after ((pending.run settings.server attempt).run world).1) }) := by
  change (system.put world index job).advance settings index = _
  rw [System.advance, put_get inside]
  simp only [active]
  exact congrArg some put_put

theorem step_settle {settled : QueueJob} (inside : index < system.jobs.length)
    (settles : job.settle = some settled) :
    (application settings).step (system.put world index job) (.settle index) =
      some (system.put world index settled) := by
  change (system.put world index job).settle index = _
  rw [System.settle, put_get inside]
  simp only [settles, Option.map_some]
  exact congrArg some put_put

theorem settle_returned (job : QueueJob) (attempt : Attempt) :
    ({ job with status := .active attempt .returned } : QueueJob).settle =
      some (job.ended (.ok ())) := rfl

theorem settle_threw (job : QueueJob) (attempt : Attempt) (failure : Failure) :
    ({ job with status := .active attempt .threw } : QueueJob).settle =
      some (job.ended (.error failure)) := rfl

/-- The steps of one job's attempt after it began. -/
def Runs (settings : Settings) (index : ℕ) (before after : System) : Prop :=
  ∃ steps : ℕ, (application settings).run before
    (List.replicate steps (.advance index) ++ [.settle index]) = some after

theorem Runs.advance {before middle after : System}
    (step : (application settings).step before (.advance index) = some middle)
    (rest : Runs settings index middle after) : Runs settings index before after := by
  obtain ⟨steps, ran⟩ := rest
  refine ⟨steps + 1, ?_⟩
  rw [List.replicate_succ, List.cons_append, EventMachine.run_cons, step, Option.bind_some, ran]

theorem Runs.settle {before after : System}
    (step : (application settings).step before (.settle index) = some after) :
    Runs settings index before after := by
  refine ⟨0, ?_⟩
  rw [List.replicate_zero, List.nil_append, EventMachine.run_cons, step, Option.bind_some,
    EventMachine.run_nil]

/-- The calls of an attempt, taken as steps, do the rest of the attempt. -/
theorem runs_rest (inside : index < system.jobs.length) (pending : Pending) (world : World) :
    Runs settings index
      (system.put world index { job with status := .active attempt (.calling pending) })
      (system.put ((pending.rest settings.server attempt).run world).2 index
        (job.ended ((pending.rest settings.server attempt).run world).1)) := by
  -- The induction is on the steps that the attempt has still to take.
  induction steps : (Activity.calling pending).stepsLeft using Nat.strong_induction_on
    generalizing pending world with
  | _ steps ih =>
      refine Runs.advance (step_advance inside rfl) ?_
      have calls := @called_run settings.server attempt world pending
      rw [run_rest]
      rcases called : (pending.run settings.server attempt).run world with ⟨result, after⟩
      rw [called] at calls
      cases result with
      | error failure => exact .settle (step_settle inside (settle_threw job attempt failure))
      | ok next =>
          cases next with
          | none => exact .settle (step_settle inside (settle_returned job attempt))
          | some next =>
              have fewer := stepsLeft_called calls
              exact ih _ (by rw [← steps]; exact fewer) next after rfl

/-- A job that begins, the calls of its attempt and the report of its end are an execution of
`processImageJob`; nothing else changes. -/
theorem run_attempt (settings : Settings) {system : System} {index : ℕ} {job : QueueJob}
    (attempt : Attempt) (found : system.jobs[index]? = some job) (waiting : job.status = .waiting)
    (capacity : system.activeJobs < concurrency) :
    ∃ calls : ℕ, (application settings).run system (attemptSteps index attempt calls) =
        some (system.put ((processImageJob settings.server attempt job.data).run system.world).2
          index (job.ended ((processImageJob settings.server attempt job.data).run
            system.world).1)) := by
  obtain ⟨inside, -⟩ := List.getElem?_eq_some_iff.mp found
  have begun : (application settings).step system (.begin index attempt) =
      some (system.put system.world index (job.begin settings.server attempt)) := by
    change system.begin settings index attempt = _
    rw [System.begin, found]
    simp only [waiting, capacity, ↓reduceIte]
    rfl
  suffices runs : Runs settings index
      (system.put system.world index (job.begin settings.server attempt))
      (system.put ((processImageJob settings.server attempt job.data).run system.world).2 index
        (job.ended ((processImageJob settings.server attempt job.data).run system.world).1)) by
    obtain ⟨steps, ran⟩ := runs
    exact ⟨steps, by rw [attemptSteps, EventMachine.run_cons, begun, Option.bind_some, ran]⟩
  rw [run_processImageJob, QueueJob.begin]
  cases receiptOf settings.server attempt job.data with
  | error failure => exact .settle (step_settle inside (settle_threw job attempt failure))
  | ok receipt =>
      cases receipt with
      | none => exact .settle (step_settle inside (settle_returned job attempt))
      | some receipt => exact runs_rest inside (.findDuplicate receipt) system.world

theorem ended_isActive (job : QueueJob) (result : Except Failure Unit) :
    (job.ended result).status.isActive = false := by
  cases result with
  | ok _ => rfl
  | error failure =>
      simp only [QueueJob.ended]
      split <;> rfl

/-- A job whose attempt has ended leaves room for another. -/
theorem activeJobs_put (found : system.jobs[index]? = some job) (result : Except Failure Unit)
    (capacity : system.activeJobs < concurrency) :
    (system.put world index (job.ended result)).activeJobs < concurrency := by
  have count := @activeJobs_set system.jobs job (job.ended result) index found
  simp only [ended_isActive, Bool.false_eq_true, ↓reduceIte, Nat.add_zero] at count
  exact lt_of_le_of_lt ((Nat.le_add_right _ _).trans count.le) capacity

theorem put_self (found : system.jobs[index]? = some job) :
    system.put system.world index job = system := by
  obtain ⟨inside, rfl⟩ := List.getElem?_eq_some_iff.mp found
  rw [System.put, List.set_getElem_self]

/-- A job that has failed once has been attempted once more. -/
theorem attempted_ended (job : QueueJob) (failure : Failure) (count : ℕ) (succeeded : Bool) :
    (job.ended (.error failure)).attempted count succeeded =
      job.attempted (count + 1) succeeded := by
  have sum : job.attemptsMade + 1 + count = job.attemptsMade + (count + 1) := by omega
  simp only [QueueJob.ended, QueueJob.attempted, sum]

/-- The attempts at a job that waits or has failed for good, as its number of attempts says. -/
theorem run_schedule (settings : Settings) (attempts : List Attempt) {system : System}
    {index : ℕ} {job : QueueJob} (found : system.jobs[index]? = some job)
    (ready : job.attempted 0 false = job) (capacity : system.activeJobs < concurrency)
    (allowed : job.attemptsMade + attempts.length ≤ DEFAULT_JOB_ATTEMPTS) :
    RunsAs settings system index job attempts := by
  induction attempts generalizing system job with
  | nil =>
      refine ⟨[], rfl, ?_⟩
      rw [runAttempts, succeeds, madeAttempts, List.length_nil, ready, put_self found]
      rfl
  | cons attempt attempts ih =>
      rw [List.length_cons] at allowed
      obtain ⟨inside, -⟩ := List.getElem?_eq_some_iff.mp found
      have waiting : job.status = .waiting := by
        rw [← ready, QueueJob.attempted, if_neg Bool.false_ne_true]
        exact if_pos (by omega)
      obtain ⟨first, ran⟩ := run_attempt settings attempt found waiting capacity
      rw [RunsAs, runAttempts, madeAttempts, succeeds]
      rcases executed : (processImageJob settings.server attempt job.data).run system.world with
        ⟨result, after⟩
      rw [executed] at ran
      cases result with
      | ok _ =>
          refine ⟨[first], rfl, ?_⟩
          rw [List.zip_cons_cons, schedule, List.flatMap_cons]
          exact (congrArg _ (List.append_nil _)).trans ran
      | error failure =>
          have again : (job.ended (.error failure)).attempted 0 false =
              job.ended (.error failure) := by
            rw [attempted_ended]
            rfl
          have fewer : (job.ended (.error failure)).attemptsMade + attempts.length ≤
              DEFAULT_JOB_ATTEMPTS := by
            change job.attemptsMade + 1 + attempts.length ≤ DEFAULT_JOB_ATTEMPTS
            omega
          obtain ⟨calls, count, rest⟩ := ih (put_get inside) again
            (@activeJobs_put system after index job found (.error failure) capacity) fewer
          refine ⟨first :: calls, congrArg (· + 1) count, ?_⟩
          rw [List.zip_cons_cons, schedule, List.flatMap_cons, EventMachine.run_append, ran,
            Option.bind_some]
          refine rest.trans (congrArg some ?_)
          rw [put_put, attempted_ended]
          rfl

/-- A job that waits and is attempted again after each failure, with nothing else going on, does to
the database and the events what `runAttempts` does: the steps are those of the attempts that
`runAttempts` makes, and afterwards the job has been attempted that often and is completed if the
last attempt succeeded, given up after the third failure, and waiting otherwise. -/
theorem run_attempts (settings : Settings) (attempts : List Attempt) {system : System}
    {index : ℕ} {job : QueueJob} (found : system.jobs[index]? = some job)
    (waiting : job.status = .waiting) (unspent : job.attemptsMade < DEFAULT_JOB_ATTEMPTS)
    (capacity : system.activeJobs < concurrency)
    (allowed : job.attemptsMade + attempts.length ≤ DEFAULT_JOB_ATTEMPTS) :
    RunsAs settings system index job attempts := by
  refine run_schedule settings attempts found ?_ capacity allowed
  rw [QueueJob.attempted, if_neg Bool.false_ne_true, Nat.add_zero, if_pos unspent, ← waiting]

end Attempts

/-- A system with one job. -/
def sampleSystem : System := ⟨emptyWorld, [], [.added samplePayload], []⟩

/-- Two attempts, of which the first loses the reply of `create`. -/
theorem lostReplyRun_attempts :
    RunsAs sampleSettings sampleSystem 0 (.added samplePayload) lostReplyRun :=
  run_attempts sampleSettings lostReplyRun rfl rfl (by decide) (by decide) (by decide)

end BirrTrack.Application
