import BirrTrack.Application.System
import BirrTrack.Foundation.Responder

/-! # The HTTP endpoints

A request passes the guard, its arguments pass the pipes, and its controller is called. Whatever
one of them throws goes to `GlobalExceptionFilter`, which answers in their place.
-/

namespace BirrTrack.Application

open Processing Transactions Telegram

/-- A call of a controller, with the arguments that the pipes have let through. -/
inductive Call where
  | getTransactions (queryDto : GetTransactionsQueryDto) (order : NewestFirst)
  | getSummary (queryDto : GetTransactionsQueryDto)
  | exportTransactions (queryDto : GetTransactionsQueryDto) (order : NewestFirst)
  | updateTransaction (id : String) (updateTransactionDto : UpdateTransactionDto)
      (editedByHeader : Option String)
  | createForInternalTesting (createTransactionDto : CreateTransactionDto) (generated : Generated)
  | handleWebhook (secret : String) (update : Telegram.Update) (delivery : Delivery)

/-- A request as the guard and the pipes judge it. -/
structure Request where
  guard : Except Exception Unit
  arguments : Except Exception Call

inductive Body where
  | page (page : TransactionsPage)
  | summary (summary : TransactionSummaryDto)
  | sheet (rows : List ExportRow)
  | updated (transaction : TransactionResponse)
  | created (transaction : Transaction)
  | acknowledged (acknowledgement : Acknowledgement)
  | failed (responseData : FilterResponse)

structure Response where
  statusCode : ℕ
  body : Body

def Response.isFailed (response : Response) : Bool :=
  match response.body with
  | .failed _ => true
  | _ => false

/-- What the endpoints act on. -/
structure Backend where
  db : Db
  outbox : Outbox

/-- A failure as the filter sees it: only `NotFoundException` is an `HttpException`. -/
def thrown : Failure → Exception
  | .notFound message => .http 404 message ⟨404, message, "Not Found"⟩
  | _ => .other

def onDb {α : Type} (procedure : Procedure Db Failure α) : Procedure Backend Exception α :=
  fun backend => ((procedure.run backend.db).1.mapError thrown,
    { backend with db := (procedure.run backend.db).2 })

def onOutbox {α : Type} (procedure : Procedure Outbox Exception α) :
    Procedure Backend Exception α :=
  .within Backend.outbox (fun outbox backend => { backend with outbox := outbox }) procedure

section Endpoints

variable (settings : Settings)

/-- `TransactionsController` and `TelegramController` -/
def Call.run : Call → Procedure Backend Exception Response
  | getTransactions queryDto order => do
      return ⟨200, .page (← onDb (findAll settings.server.reader order queryDto))⟩
  | getSummary queryDto => do
      return ⟨200, .summary (← onDb (Transactions.getSummary settings.server.reader queryDto))⟩
  | exportTransactions queryDto order => do
      return ⟨200, .sheet (← onDb (exportRows settings.server.reader order queryDto))⟩
  | updateTransaction id updateTransactionDto editedByHeader => do
      return ⟨200, .updated (← onDb (update settings.server.reader id updateTransactionDto
        (editedBy editedByHeader)))⟩
  | createForInternalTesting createTransactionDto generated => do
      return ⟨201, .created (← onDb (create settings.server.reader generated
        createTransactionDto))⟩
  | handleWebhook secret update delivery => do
      return ⟨200, .acknowledged (← onOutbox (Telegram.handleWebhook delivery update
        settings.TELEGRAM_WEBHOOK_SECRET secret))⟩

def Request.run (request : Request) : Procedure Backend Exception Response := do
  Procedure.ofExcept request.guard
  let call ← Procedure.ofExcept request.arguments
  call.run settings

/-- What the filter sends for an exception in a request. -/
def refusal (exception : Exception) : Option Response :=
  (filterException exception .http).map fun responseData =>
    ⟨responseData.statusCode, .failed responseData⟩

/-- The application as it answers requests one after the other. -/
def endpoints : Responder Backend Request (Option Response) where
  respond backend request :=
    match (request.run settings).run backend with
    | (.ok response, after) => (some response, after)
    | (.error exception, after) => (refusal exception, after)

end Endpoints

end BirrTrack.Application
