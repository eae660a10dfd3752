import BirrTrack.Processing.Service

/-! # What an image job records

A job first reads a receipt, which touches nothing, and then records it: the lookup, the
new row and the event. A recorded row is flagged when an earlier row has the key looked up.
-/

namespace BirrTrack.Processing

open Js Transactions

/-- The receipt that the calls before the database yield, none if a critical field is missing. -/
def receiptOf (server : Server) (attempt : Attempt) (payload : ImageProcessingJobPayload) :
    Except Failure (Option CreateTransactionDto) := do
  let fileUrl ← resolveTelegramFileDownloadUrl server.config attempt payload.fileId
  let imageBuffer ← downloadTelegramFileFromUrl attempt fileUrl
  let ocrText ← extractText server.config attempt imageBuffer
  let parsed ← parse ocrText.toList (llmResponse server.config attempt ocrText)
  return parsed.complete.map fun fields =>
    createDto payload fields parsed.confidence false fileUrl

/-- The rest of a job, for a receipt with all critical fields. -/
def recordReceipt (server : Server) (attempt : Attempt) (receipt : CreateTransactionDto) :
    Procedure World Failure Unit := do
  let duplicate ← disturbed (attempt.faults .findDuplicate) <| inDb <|
    findDuplicate server.reader receipt.transactionId receipt.amount receipt.timestamp
  let transaction ← disturbed (attempt.faults .create) <| inDb <|
    create server.reader attempt.generated { receipt with isDuplicate := duplicate.isSome }
  disturbed (attempt.faults .emit) (emitTransactionNew (toResponse transaction))

section Specs

variable {server : Server} {attempt : Attempt} {payload : ImageProcessingJobPayload}
  {world after : World} {receipt : CreateTransactionDto} {row : TransactionRow}

/-- A job reads a receipt and records it. -/
theorem run_processImageJob (world : World) :
    (processImageJob server attempt payload).run world =
      match receiptOf server attempt payload with
      | .error failure => (.error failure, world)
      | .ok none => (.ok (), world)
      | .ok (some receipt) => (recordReceipt server attempt receipt).run world := by
  unfold processImageJob receiptOf
  cases resolveTelegramFileDownloadUrl server.config attempt payload.fileId with
  | error failure => rfl
  | ok fileUrl =>
      rw [Procedure.ok_bind, Procedure.run_ofExcept_bind]
      cases downloadTelegramFileFromUrl attempt fileUrl with
      | error failure => rfl
      | ok imageBuffer =>
          rw [Procedure.ok_bind, Procedure.run_ofExcept_bind]
          cases extractText server.config attempt imageBuffer with
          | error failure => rfl
          | ok ocrText =>
              rw [Procedure.ok_bind, Procedure.run_ofExcept_bind]
              cases parse ocrText.toList (llmResponse server.config attempt ocrText) with
              | error failure => rfl
              | ok parsed =>
                  rw [Procedure.ok_bind, Procedure.run_ofExcept_bind]
                  cases complete : parsed.complete with
                  | none => rfl
                  | some fields => rfl

/-! ## The rest of a job -/

/-- A row as a job records it: flagged if the table has its key already, with the number that the
receipt gives. -/
def recorded (receipt : CreateTransactionDto) (row : TransactionRow) (db : Db) : TransactionRow :=
  { row with
    isDuplicate := db.transactions.any fun earlier =>
      earlier.key = row.keyWith receipt.transactionId }

theorem toRow_flag {reader : DateReader} {generated : Generated}
    (stored : (receipt.toNew reader).toRow reader generated = some row) (flag : Bool) :
    (({ receipt with isDuplicate := flag } : CreateTransactionDto).toNew reader).toRow reader
      generated = some { row with isDuplicate := flag } := by
  obtain ⟨⟨id, confidence, -, createdAt⟩, columns⟩ := toRow_eq_some.mp stored
  exact toRow_eq_some.mpr ⟨⟨id, confidence, rfl, createdAt⟩, columns⟩

theorem isSome_find? (db : Db) (key : TransactionKey) :
    ((db.transactions.find? (·.key = key)).map TransactionRow.toEntity).isSome =
      db.transactions.any fun earlier => earlier.key = key := by
  rw [Option.isSome_map, List.isSome_find?]

/-- The columns take the receipt's row, and neither the lookup nor the creation is prevented. -/
structure Records (server : Server) (attempt : Attempt) (receipt : CreateTransactionDto)
    (row : TransactionRow) : Prop where
  looks : attempt.faults .findDuplicate = none
  creates : attempt.faults .create ≠ some .before
  stored : (receipt.toNew server.reader).toRow server.reader attempt.generated = some row

/-- The event of a recorded receipt. -/
def announced (server : Server) (receipt : CreateTransactionDto) (row : TransactionRow) :
    TransactionResponse :=
  toResponse ((({ receipt with isDuplicate := row.isDuplicate } : CreateTransactionDto).toNew
    server.reader).saved row)

/-- A row with a new id is added, and then the event emitted. -/
theorem run_recordReceipt (records : Records server attempt receipt row)
    (fresh : row.id ∉ world.db.transactions.map TransactionRow.id) :
    ∃ db, world.db.insert (recorded receipt row world.db) = some db ∧
      (recordReceipt server attempt receipt).run world =
        match attempt.faults .create with
        | none => (disturbed (attempt.faults .emit) (emitTransactionNew
            (announced server receipt (recorded receipt row world.db)))).run { world with db := db }
        | some _ => (.error .unavailable, { world with db := db }) := by
  obtain ⟨looks, creates, stored⟩ := records
  obtain ⟨db, inserted⟩ : ∃ db, world.db.insert (recorded receipt row world.db) = some db :=
    ⟨_, dif_pos fresh⟩
  refine ⟨db, inserted, ?_⟩
  have looked : (inDb (findDuplicate server.reader receipt.transactionId receipt.amount
      receipt.timestamp)).run world =
        (.ok ((world.db.transactions.find? (·.key = row.keyWith receipt.transactionId)).map
          TransactionRow.toEntity), world) := by
    rw [inDb, Procedure.run_within, findDuplicate_of_key (key_of_toRow stored)]
  have created : (inDb (create server.reader attempt.generated { receipt with
      isDuplicate := world.db.transactions.any fun earlier =>
        earlier.key = row.keyWith receipt.transactionId })).run world =
        (.ok ((({ receipt with isDuplicate := (recorded receipt row world.db).isDuplicate } :
          CreateTransactionDto).toNew server.reader).saved (recorded receipt row world.db)),
          { world with db := db }) := by
    rw [inDb, Procedure.run_within, create_eq_ok.mpr ⟨_, toRow_flag stored _, inserted, rfl⟩]
    rfl
  rw [recordReceipt, looks, disturbed, Procedure.run_bind_ok looked, isSome_find?]
  cases fault : attempt.faults .create with
  | none =>
      rw [disturbed, Procedure.run_bind_ok created]
      rfl
  | some moment =>
      cases moment with
      | before => exact absurd fault creates
      | after =>
          apply Procedure.run_bind_error
          rw [disturbed, Procedure.run_bind_ok created]
          rfl

/-- Otherwise the rest of a job fails and leaves everything as it was. -/
theorem run_recordReceipt_error
    (prevented : ∀ row, Records server attempt receipt row →
      row.id ∈ world.db.transactions.map TransactionRow.id) :
    ∃ failure, (recordReceipt server attempt receipt).run world = (.error failure, world) := by
  have fails : ∀ {α β : Type} {procedure : Procedure World Failure α}
      {next : α → Procedure World Failure β},
      (∃ failure, procedure.run world = (.error failure, world)) →
        ∃ failure, (procedure >>= next).run world = (.error failure, world) := by
    intro α β procedure next failed
    obtain ⟨failure, failed⟩ := failed
    exact ⟨failure, Procedure.run_bind_error failed⟩
  obtain ⟨answer, looked⟩ : ∃ answer, (inDb (findDuplicate server.reader receipt.transactionId
      receipt.amount receipt.timestamp)).run world = (answer, world) := ⟨_, rfl⟩
  rw [recordReceipt]
  cases lookFault : attempt.faults .findDuplicate with
  | some moment =>
      apply fails
      cases moment with
      | before => exact ⟨_, rfl⟩
      | after =>
          cases answer with
          | error failure => exact ⟨failure, Procedure.run_bind_error looked⟩
          | ok duplicate => exact ⟨_, Procedure.run_bind_ok looked⟩
  | none =>
      cases answer with
      | error failure => exact fails ⟨failure, looked⟩
      | ok duplicate =>
          have rejected : attempt.faults .create ≠ some .before →
              ∃ failure, (inDb (create server.reader attempt.generated
                { receipt with isDuplicate := duplicate.isSome })).run world =
                  (.error failure, world) := by
            intro allowed
            rcases ran : (create server.reader attempt.generated
              { receipt with isDuplicate := duplicate.isSome }).run world.db with ⟨result, reached⟩
            cases result with
            | error failure =>
                refine ⟨failure, ?_⟩
                rw [inDb, Procedure.run_within, ran, create_error ran]
            | ok saved =>
                obtain ⟨row, stored, inserted, -⟩ := create_eq_ok.mp ran
                have records := toRow_flag stored receipt.isDuplicate
                exact absurd (prevented _ ⟨lookFault, allowed, records⟩)
                  (Db.insert_eq_some.mp inserted).1
          rw [disturbed, Procedure.run_bind_ok looked]
          apply fails
          cases createFault : attempt.faults .create with
          | none => exact rejected fun same => nomatch createFault.symm.trans same
          | some moment =>
              cases moment with
              | before => exact ⟨_, rfl⟩
              | after =>
                  rw [disturbed]
                  exact fails (rejected fun same => nomatch createFault.symm.trans same)

end Specs

/-! ## A sample receipt -/

open Database in
/-- 8 April 2026. -/
def sampleInstant : Timestamptz := ⟨⟨1775606400000, by decide⟩, by decide⟩

def sampleServer : Server where
  config := {
    TELEGRAM_BOT_TOKEN := some "123:abc"
    OCR_SERVICE_URL := some "http://ocr"
    LLM_SERVICE_URL := none }
  reader := utcReader

/-- A server with a language model. -/
def llmServer : Server :=
  { sampleServer with config := { sampleServer.config with LLM_SERVICE_URL := some "http://llm" } }

def samplePayload : ImageProcessingJobPayload := ⟨"42", "Abebe", "file-1"⟩

/-- Services that find a receipt with all critical fields. -/
def sampleServices : Services where
  getFile := fun _ _ => .ok ⟨200, true, some "photos/1.jpg", none, ""⟩
  download := fun _ => .ok []
  ocr := fun _ _ => .ok (some "CBE 2026-04-08 ref A12345 50.00")
  extract := fun _ _ => .error .unavailable

/-- An attempt for the sample receipt, with the id its row gets. -/
def sampleAttempt (id : String) (faults : Call → Option Fault) : Attempt :=
  ⟨sampleServices, ⟨id, sampleInstant⟩, faults⟩

def noFaults : Call → Option Fault := fun _ => none

end BirrTrack.Processing
