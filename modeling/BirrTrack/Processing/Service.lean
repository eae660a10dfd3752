import BirrTrack.Processing.Parsing
import BirrTrack.Transactions.Creation

/-! # The processing service

`ProcessingService.processImageJob`: a receipt's image is fetched, read and parsed, and a
receipt with all critical fields is stored and announced. Any call of a job may fail, also
after it took effect; a failed attempt is run again from the start.
-/

namespace BirrTrack.Processing

open Js Transactions

structure ImageProcessingJobPayload where
  telegramUserId : String
  telegramName : String
  fileId : String

/-- The settings that a job reads. -/
structure Config where
  TELEGRAM_BOT_TOKEN : Option String
  OCR_SERVICE_URL : Option String
  LLM_SERVICE_URL : Option String

/-- What `getFile` answers: its HTTP status, the parts of the body that the code inspects, and
the body as `stringifyAxiosBody` writes it. -/
structure GetFileReply where
  status : ℕ
  ok : Bool
  filePath : Option String
  description : Option String
  body : String

/-- The services around the application: what they answer to what they are asked. -/
structure Services where
  getFile : (token fileId : String) → Except Failure GetFileReply
  download : (url : String) → Except Failure (List UInt8)
  ocr : (baseUrl : String) → (image : List UInt8) → Except Failure (Option String)
  extract : (baseUrl ocrText : String) → Except Failure LlmExtractResponse

/-- The tables, and the payloads of the `transaction:new` events. -/
@[ext] structure World where
  db : Db
  events : List TransactionResponse

/-- The awaited calls of a job. -/
inductive Call where
  | getFile
  | download
  | ocr
  | llm
  | findDuplicate
  | create
  | emit
  deriving DecidableEq

/-- A call fails before its effect takes place or after. -/
inductive Fault where
  | before
  | after
  deriving DecidableEq

/-- What one execution of a job meets. -/
structure Attempt where
  services : Services
  generated : Generated
  faults : Call → Option Fault

/-- The answer to a call without an effect on the tables. -/
def answered {α : Type} (fault : Option Fault) (answer : Except Failure α) : Except Failure α :=
  match fault with
  | none => answer
  | some _ => .error .unavailable

/-- A call with an effect. -/
def disturbed {α : Type} (fault : Option Fault) (procedure : Procedure World Failure α) :
    Procedure World Failure α :=
  match fault with
  | none => procedure
  | some .before => throw .unavailable
  | some .after => do
      let _ ← procedure
      throw .unavailable

def inDb {α : Type} (procedure : Procedure Db Failure α) : Procedure World Failure α :=
  .within World.db (fun db world => { world with db := db }) procedure

/-- `text.trim()` -/
def trimmed (text : String) : String := String.ofList (trim text.toList)

/-! ## The calls before the database -/

section Calls

variable (config : Config) (attempt : Attempt)

/-- The URL that a file is downloaded from. -/
def telegramFileUrl (token filePath : String) : String :=
  s!"https://api.telegram.org/file/bot{token}/{filePath}"

def resolveTelegramFileDownloadUrl (fileId : String) : Except Failure String :=
  let token := (config.TELEGRAM_BOT_TOKEN.map trimmed).getD ""
  if token = "" then .error (.error "TELEGRAM_BOT_TOKEN is not configured")
  else
    let trimmedFileId := trimmed fileId
    if trimmedFileId = "" then .error (.error "Telegram file_id is empty")
    else do
      let response ← answered (attempt.faults .getFile)
        (attempt.services.getFile token trimmedFileId)
      let filePath := response.filePath.getD ""
      if response.status = 200 ∧ response.ok ∧ filePath ≠ "" then
        return telegramFileUrl token filePath
      else
        let telegramMessage := response.description.getD response.body
        let status := response.status
        let hint := "Ensure TELEGRAM_BOT_TOKEN is the same bot that received the photo; " ++
          "file_id values are not portable across bots."
        throw (.error s!"Telegram getFile failed (HTTP {status}): {telegramMessage}. {hint}")

def downloadTelegramFileFromUrl (fileUrl : String) : Except Failure (List UInt8) :=
  answered (attempt.faults .download) (attempt.services.download fileUrl)

/-- `OcrService.extractText` -/
def extractText (imageBuffer : List UInt8) : Except Failure String :=
  let ocrBaseUrl := config.OCR_SERVICE_URL.getD ""
  if ocrBaseUrl = "" then .error (.error "OCR_SERVICE_URL is not configured")
  else do
    let text ← answered (attempt.faults .ocr) (attempt.services.ocr ocrBaseUrl imageBuffer)
    return (text.map trimmed).getD ""

/-- The answer that `LlmService.extractFields` gets. -/
def llmResponse (ocrText : String) : Except Failure LlmExtractResponse :=
  let llmBaseUrl := config.LLM_SERVICE_URL.getD ""
  if llmBaseUrl = "" then .error (.error "LLM_SERVICE_URL is not configured")
  else answered (attempt.faults .llm) (attempt.services.extract llmBaseUrl ocrText)

end Calls

/-! ## The job -/

/-- What a job runs with: its settings and how the engine reads a date. -/
structure Server where
  config : Config
  reader : DateReader

def createDto (payload : ImageProcessingJobPayload) (fields : CompleteFields) (confidence : Number)
    (isDuplicate : Bool) (fileUrl : String) : CreateTransactionDto where
  telegramUserId := payload.telegramUserId
  telegramName := payload.telegramName
  amount := fields.amount
  transactionId := fields.transactionId
  timestamp := fields.timestamp
  bankName := fields.bankName
  confidence := confidence
  isDuplicate := isDuplicate
  imageUrl := .value fileUrl

def emitTransactionNew (payload : TransactionResponse) : Procedure World Failure Unit :=
  .statement fun world => .ok ((), { world with events := world.events ++ [payload] })

section Job

variable (server : Server) (attempt : Attempt) (payload : ImageProcessingJobPayload)

def processImageJob : Procedure World Failure Unit := do
  let fileUrl ← Procedure.ofExcept
    (resolveTelegramFileDownloadUrl server.config attempt payload.fileId)
  let imageBuffer ← Procedure.ofExcept (downloadTelegramFileFromUrl attempt fileUrl)
  let ocrText ← Procedure.ofExcept (extractText server.config attempt imageBuffer)
  let parsed ← Procedure.ofExcept (parse ocrText.toList (llmResponse server.config attempt ocrText))
  match parsed.complete with
  | none => return ()
  | some fields =>
      let duplicate ← disturbed (attempt.faults .findDuplicate) <| inDb <|
        findDuplicate server.reader fields.transactionId fields.amount fields.timestamp
      let transaction ← disturbed (attempt.faults .create) <| inDb <|
        create server.reader attempt.generated
          (createDto payload fields parsed.confidence duplicate.isSome fileUrl)
      disturbed (attempt.faults .emit) (emitTransactionNew (toResponse transaction))

/-- The worker's executions of a job: the next one is made only after a failed one. -/
def runAttempts : List Attempt → World → World
  | [], world => world
  | attempt :: later, world =>
      match (processImageJob server attempt payload).run world with
      | (.ok _, after) => after
      | (.error _, after) => runAttempts later after

end Job

end BirrTrack.Processing
