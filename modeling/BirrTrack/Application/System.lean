import BirrTrack.Foundation.EventMachine
import BirrTrack.Processing.Retries
import BirrTrack.Telegram.Webhook
import BirrTrack.Transactions.Update

/-! # The application as a whole

The webhook, the queue with its worker, and the requests that write, over one database. Requests
and jobs interleave at every awaited call of the database; the process may stop at any moment and
start again, which loses what it held in memory and no more. A run is any list of such events.
-/

namespace BirrTrack.Application

open Processing Transactions Telegram

/-! ## The queue -/

/-- `concurrency` of the worker. -/
def concurrency : ℕ := 2

/-- The next call of an attempt that has read its receipt. -/
inductive Pending where
  | findDuplicate (receipt : CreateTransactionDto)
  | create (receipt : CreateTransactionDto)
  | emit (transaction : Transaction)

/-- How far an attempt has come; a result is reported to the queue in a step of its own. -/
inductive Activity where
  | calling (pending : Pending)
  | returned
  | threw

inductive JobStatus where
  | waiting
  | active (attempt : Attempt) (activity : Activity)
  | completed
  | failed

structure QueueJob where
  data : ImageProcessingJobPayload
  attemptsMade : ℕ
  stalledCounter : ℕ
  status : JobStatus

def JobStatus.isActive : JobStatus → Bool
  | active _ _ => true
  | _ => false

namespace QueueJob

def added (data : ImageProcessingJobPayload) : QueueJob := ⟨data, 0, 0, .waiting⟩

/-- An attempt begins with the calls that touch nothing. -/
def begin (server : Server) (attempt : Attempt) (job : QueueJob) : QueueJob :=
  { job with
    status := .active attempt <| match receiptOf server attempt job.data with
      | .error _ => .threw
      | .ok none => .returned
      | .ok (some receipt) => .calling (.findDuplicate receipt) }

/-- The queue learns how an attempt ended. -/
def settle (job : QueueJob) : Option QueueJob :=
  match job.status with
  | .active _ .returned =>
      some { job with attemptsMade := job.attemptsMade + 1, status := .completed }
  | .active _ .threw =>
      some { job with
        attemptsMade := job.attemptsMade + 1
        status := if job.attemptsMade + 1 < DEFAULT_JOB_ATTEMPTS then .waiting else .failed }
  | _ => none

/-- The worker of an active job has gone; the queue recovers a job that often and then gives it
up. -/
def stall (maxStalledCount : ℕ) (job : QueueJob) : QueueJob :=
  match job.status with
  | .active _ _ =>
      { job with
        stalledCounter := job.stalledCounter + 1
        status := if job.stalledCounter + 1 ≤ maxStalledCount then .waiting else .failed }
  | _ => job

end QueueJob

/-- One call of an attempt, and the call after it. -/
def Pending.run (server : Server) (attempt : Attempt) :
    Pending → Procedure World Failure (Option Pending)
  | findDuplicate receipt => do
      let duplicate ← disturbed (attempt.faults .findDuplicate) <| inDb <|
        Transactions.findDuplicate server.reader receipt.transactionId receipt.amount
          receipt.timestamp
      return some (create { receipt with isDuplicate := duplicate.isSome })
  | create receipt => do
      let transaction ← disturbed (attempt.faults .create) <| inDb <|
        Transactions.create server.reader attempt.generated receipt
      return some (emit transaction)
  | emit transaction => do
      disturbed (attempt.faults .emit) (emitTransactionNew (toResponse transaction))
      return none

def Activity.after : Except Failure (Option Pending) → Activity
  | .ok (some pending) => calling pending
  | .ok none => returned
  | .error _ => threw

/-! ## The system -/

/-- A PATCH request that has read its row and not yet written. -/
structure OpenEdit where
  existing : Transaction
  dto : UpdateTransactionDto
  editedBy : String

/-- All jobs that were ever added are kept here: which finished ones the queue still knows
(`removeOnComplete`, `removeOnFail`) nothing depends on. -/
structure System where
  world : World
  replies : List String
  jobs : List QueueJob
  edits : List OpenEdit

/-- The application before it has been used. -/
def System.initial : System := ⟨emptyWorld, [], [], []⟩

def DEFAULT_EDITOR : String := "system"

/-- `editedByHeader?.trim() || DEFAULT_EDITOR` -/
def editedBy (editedByHeader : Option String) : String :=
  let trimmed := (editedByHeader.map trimmed).getD ""
  if trimmed ≠ "" then trimmed else DEFAULT_EDITOR

inductive SystemEvent where
  | webhook (delivery : Delivery) (secret : String) (context : Telegram.Update)
  | begin (job : ℕ) (attempt : Attempt)
  | advance (job : ℕ)
  | settle (job : ℕ)
  | restart
  | post (generated : Generated) (dto : CreateTransactionDto)
  | read (id : String) (dto : UpdateTransactionDto) (editedByHeader : Option String)
  | commit (edit : ℕ)

/-- What the application is configured with; how often a stalled job is recovered is left to the
queue's library. -/
structure Settings where
  server : Server
  TELEGRAM_WEBHOOK_SECRET : Option String
  maxStalledCount : ℕ

section Steps

variable (settings : Settings)

/-- What a webhook request sends out. -/
def System.webhook (delivery : Delivery) (secret : String) (context : Telegram.Update)
    (system : System) : System :=
  let outbox := ((handleWebhook delivery context settings.TELEGRAM_WEBHOOK_SECRET secret).run
    ⟨[], system.replies⟩).2
  { system with
    replies := outbox.replies
    jobs := system.jobs ++ outbox.jobs.map QueueJob.added }

/-- How many jobs the worker runs. -/
def System.activeJobs (system : System) : ℕ := system.jobs.countP (·.status.isActive)

def System.begin (index : ℕ) (attempt : Attempt) (system : System) : Option System :=
  match system.jobs[index]? with
  | some job =>
      match job.status with
      | .waiting =>
          if system.activeJobs < concurrency then
            some { system with
              jobs := system.jobs.set index (job.begin settings.server attempt) }
          else none
      | _ => none
  | none => none

def System.advance (index : ℕ) (system : System) : Option System :=
  match system.jobs[index]? with
  | some job =>
      match job.status with
      | .active attempt (.calling pending) =>
          let (result, world) := (pending.run settings.server attempt).run system.world
          some { system with
            world := world
            jobs := system.jobs.set index
              { job with status := .active attempt (.after result) } }
      | _ => none
  | none => none

def System.settle (index : ℕ) (system : System) : Option System :=
  match system.jobs[index]? with
  | some job => job.settle.map fun settled => { system with jobs := system.jobs.set index settled }
  | none => none

def System.restart (system : System) : System :=
  { system with
    jobs := system.jobs.map (QueueJob.stall settings.maxStalledCount)
    edits := [] }

def System.inDb {α : Type} (procedure : Procedure Db Failure α) (system : System) : System :=
  { system with world := { system.world with db := (procedure.run system.world.db).2 } }

/-- A PATCH request reads its row; it is over if there is none. -/
def System.read (id : String) (dto : UpdateTransactionDto) (editedByHeader : Option String)
    (system : System) : System :=
  match system.world.db.find id with
  | none => system
  | some row =>
      { system with edits := system.edits ++ [⟨row.toEntity, dto, editedBy editedByHeader⟩] }

/-- A PATCH request writes what it has to, and is over. -/
def System.commit (index : ℕ) (system : System) : Option System :=
  match system.edits[index]? with
  | none => none
  | some edit =>
      some { (system.inDb (updateExisting settings.server.reader edit.existing edit.dto
        edit.editedBy)) with edits := system.edits.eraseIdx index }

def application : EventMachine System SystemEvent where
  step system
    | .webhook delivery secret context => some (system.webhook settings delivery secret context)
    | .begin job attempt => system.begin settings job attempt
    | .advance job => system.advance settings job
    | .settle job => system.settle job
    | .restart => some (system.restart settings)
    | .post generated dto =>
        some (system.inDb (Transactions.create settings.server.reader generated dto))
    | .read id dto editedByHeader => some (system.read id dto editedByHeader)
    | .commit edit => system.commit settings edit

end Steps

end BirrTrack.Application
