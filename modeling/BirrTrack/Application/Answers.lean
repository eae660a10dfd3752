import BirrTrack.Application.Endpoints
import BirrTrack.Telegram.Webhook
import BirrTrack.Transactions.Failures

/-! # How requests are answered

Every request is answered. Which requests succeed is decided by their arguments and by what the
table holds (`endpoints_answer`); any other leaves no trace, so that the requests that succeed
are answered as if there had been no others (`endpoints_accepted`).
-/

namespace BirrTrack.Application

open Js Database Processing Transactions Telegram

variable {settings : Settings} {backend : Backend} {call : Call} {request : Request}
  {isDateString : String → Prop}

/-! ## What is expected of a call -/

/-- The bodies have passed the validators. -/
def Call.Valid (isDateString : String → Prop) : Call → Prop
  | updateTransaction _ dto _ => dto.Valid isDateString
  | createForInternalTesting dto _ => dto.Valid isDateString
  | _ => True

/-- When a call goes through. -/
def Call.Succeeds (settings : Settings) (backend : Backend) : Call → Prop
  | getTransactions queryDto _ =>
      queryDto.Readable settings.server.reader ∧ queryDto.skip.isSome = true
  | getSummary queryDto => queryDto.Readable settings.server.reader
  | exportTransactions queryDto _ => queryDto.Readable settings.server.reader
  | updateTransaction id dto editedByHeader => ∃ row, backend.db.find id = some row ∧
      dto.WithinColumns settings.server.reader ∧
      (changedFields row.toEntity dto = [] ∨ FitsVarchar 120 (editedBy editedByHeader))
  | createForInternalTesting dto generated => dto.WithinColumns settings.server.reader ∧
      generated.id ∉ backend.db.transactions.map TransactionRow.id
  | handleWebhook secret _ _ => ¬ Refused settings.TELEGRAM_WEBHOOK_SECRET secret

def Call.statusCode : Call → ℕ
  | createForInternalTesting _ _ => 201
  | _ => 200

/-- What a call throws that does not go through. -/
def Call.exception (backend : Backend) : Call → Exception
  | updateTransaction id _ _ =>
      if backend.db.find id = none then thrown (.notFound s!"Transaction {id} not found")
      else .other
  | handleWebhook _ _ _ => forbidden "Invalid Telegram webhook secret"
  | _ => .other

/-! ## Calls -/

/-- A procedure goes through under a condition, and otherwise throws and changes nothing. -/
def GoesThrough {State Failure α : Type} (procedure : Procedure State Failure α) (state : State)
    (condition : Prop) (throws : Failure → Prop) : Prop :=
  (condition → ∃ a after, procedure.run state = (.ok a, after)) ∧
    (¬ condition → ∃ failure, procedure.run state = (.error failure, state) ∧ throws failure)

/-- Under a condition a call answers with a status code, and otherwise it throws an exception and
changes nothing. -/
def Answers (procedure : Procedure Backend Exception Response) (backend : Backend)
    (condition : Prop) (statusCode : ℕ) (exception : Exception) : Prop :=
  (condition → ∃ response after, procedure.run backend = (.ok response, after) ∧
      response.statusCode = statusCode ∧ response.isFailed = false) ∧
    (¬ condition → procedure.run backend = (.error exception, backend))

/-- A call whose result becomes the body answers as its procedure goes through. -/
theorem answers_onDb {α : Type} {procedure : Procedure Db Failure α} {condition : Prop}
    {exception : Exception}
    (goes : GoesThrough procedure backend.db condition fun failure => thrown failure = exception)
    (statusCode : ℕ) {body : α → Body}
    (succeeds : ∀ a, Response.isFailed ⟨statusCode, body a⟩ = false) :
    Answers (do return ⟨statusCode, body (← onDb procedure)⟩) backend condition statusCode
      exception := by
  refine ⟨?_, ?_⟩
  · intro given
    obtain ⟨a, db, ran⟩ := goes.1 given
    have called : Procedure.run (onDb procedure) backend = (.ok a, { backend with db := db }) := by
      change ((procedure.run backend.db).1.mapError thrown, _) = _
      rw [ran]
      rfl
    refine ⟨⟨statusCode, body a⟩, { backend with db := db }, ?_, rfl, succeeds a⟩
    rw [Procedure.run_bind_ok called, Procedure.run_pure]
  · intro missing
    obtain ⟨failure, ran, rfl⟩ := goes.2 missing
    have called : Procedure.run (onDb procedure) backend = (.error (thrown failure), backend) := by
      change ((procedure.run backend.db).1.mapError thrown, _) = _
      rw [ran]
      rfl
    rw [Procedure.run_bind_error called]

/-- An update goes through for an existing row, values within its columns and, unless nothing is
logged, an editor whose name fits. -/
theorem goesThrough_update (validator : TakesIsoDates isDateString) {reader : DateReader}
    {id : String} {dto : UpdateTransactionDto} (valid : dto.Valid isDateString) (editor : String)
    (db : Db) :
    GoesThrough (update reader id dto editor) db
      (∃ row, db.find id = some row ∧ dto.WithinColumns reader ∧
        (changedFields row.toEntity dto = [] ∨ FitsVarchar 120 editor))
      fun failure => thrown failure = if db.find id = none
        then thrown (.notFound s!"Transaction {id} not found") else .other := by
  have storable : Storable reader dto ↔ dto.WithinColumns reader :=
    storable_iff_withinColumns validator valid
  refine ⟨?_, ?_⟩
  · intro conditions
    obtain ⟨row, found, within, logs⟩ := conditions
    obtain ⟨after, response, ran⟩ :=
      (exists_update_ok_iff found valid.nonnegAmount).mpr ⟨storable.mpr within, logs⟩
    exact ⟨response, after, ran⟩
  · intro fails
    cases found : db.find id with
    | none => exact ⟨_, run_update_of_missing found, rfl⟩
    | some row =>
        rcases ran : (update reader id dto editor).run db with ⟨result, after⟩
        cases result with
        | ok response =>
            obtain ⟨stores, logs⟩ :=
              (exists_update_ok_iff found valid.nonnegAmount).mp ⟨after, response, ran⟩
            exact absurd ⟨row, found, storable.mp stores, logs⟩ fails
        | error failure =>
            refine ⟨failure, by rw [update_error ran], ?_⟩
            rcases (meets_update dto editor).throws found ran with rfl | rfl <;> rfl

/-- A new row is stored when its values are within the columns and its id is new. -/
theorem goesThrough_create {reader : DateReader} {dto : CreateTransactionDto}
    (valid : dto.Valid isDateString) (generated : Generated) (db : Db) :
    GoesThrough (create reader generated dto) db
      (dto.WithinColumns reader ∧ generated.id ∉ db.transactions.map TransactionRow.id)
      fun failure => thrown failure = .other := by
  have stores : dto.WithinColumns reader ↔
      ((dto.toNew reader).toRow reader generated).isSome = true := by
    obtain ⟨places, nonneg⟩ := valid.amount
    rw [isSome_toRow_new nonneg, hundredths_lt_iff places nonneg]
    refine ⟨?_, ?_⟩
    · exact fun within => ⟨within.telegramUserId, within.telegramName, within.amount,
        within.transactionId, within.timestamp, within.bankName, within.imageUrl⟩
    · intro fits
      obtain ⟨user, name, amount, number, instant, bank, image⟩ := fits
      exact ⟨user, name, amount, number, instant, bank, image⟩
  refine ⟨?_, ?_⟩
  · intro conditions
    obtain ⟨within, fresh⟩ := conditions
    obtain ⟨row, converts⟩ := Option.isSome_iff_exists.mp (stores.mp within)
    have id : row.id = generated.id := (toRow_eq_some.mp converts).1.1
    rw [← id] at fresh
    exact ⟨_, _, create_eq_ok.mpr ⟨row, converts, dif_pos fresh, rfl⟩⟩
  · intro fails
    rcases ran : (create reader generated dto).run db with ⟨result, after⟩
    cases result with
    | ok saved =>
        obtain ⟨row, converts, inserts, -⟩ := create_eq_ok.mp ran
        refine absurd ⟨stores.mpr (by rw [converts]; rfl), ?_⟩ fails
        rw [← (toRow_eq_some.mp converts).1.1]
        exact (Db.insert_eq_some.mp inserts).1
    | error failure =>
        refine ⟨failure, by rw [create_error ran], ?_⟩
        rcases (meets_create dto generated).throws trivial ran with rfl | rfl <;> rfl

/-- A call goes through or throws, and what throws changes nothing. -/
theorem answers_call (settings : Settings) (backend : Backend)
    (validator : TakesIsoDates isDateString) (valid : call.Valid isDateString) :
    Answers (call.run settings) backend (call.Succeeds settings backend) call.statusCode
      (call.exception backend) := by
  have queries : ∀ {α : Type} (queryDto : GetTransactionsQueryDto)
      (answer : List TransactionRow → α),
      GoesThrough (do return answer (← buildFilteredQuery settings.server.reader queryDto))
        backend.db (queryDto.Readable settings.server.reader)
        fun failure => thrown failure = .other := by
    intro α queryDto answer
    obtain ⟨reads, rejects⟩ := @run_query settings.server.reader α queryDto answer backend.db
    exact ⟨reads, fun unreadable => ⟨_, rejects unreadable, rfl⟩⟩
  cases call with
  | getTransactions queryDto order =>
      refine answers_onDb ?_ 200 fun _ => rfl
      obtain ⟨answers, rejects⟩ :=
        @run_findAll settings.server.reader order queryDto backend.db
      refine ⟨?_, fun fails => ⟨_, rejects fails, rfl⟩⟩
      intro conditions
      obtain ⟨page, answered⟩ := answers conditions
      exact ⟨page, backend.db, answered⟩
  | getSummary queryDto => exact answers_onDb (queries queryDto _) 200 fun _ => rfl
  | exportTransactions queryDto order => exact answers_onDb (queries queryDto _) 200 fun _ => rfl
  | updateTransaction id dto editedByHeader =>
      exact answers_onDb (goesThrough_update validator valid _ backend.db) 200 fun _ => rfl
  | createForInternalTesting dto generated =>
      exact answers_onDb (goesThrough_create valid generated backend.db) 201 fun _ => rfl
  | handleWebhook secret update delivery =>
      refine ⟨?_, ?_⟩
      · intro known
        have called : Procedure.run (onOutbox (Telegram.handleWebhook delivery update
            settings.TELEGRAM_WEBHOOK_SECRET secret)) backend = _ :=
          (Procedure.run_within _ _ _ backend).trans (by rw [run_handleWebhook known])
        exact ⟨⟨200, .acknowledged ⟨true⟩⟩, { backend with outbox := _ },
          Procedure.run_bind_ok called, rfl, rfl⟩
      · intro refused
        have called : Procedure.run (onOutbox (Telegram.handleWebhook delivery update
            settings.TELEGRAM_WEBHOOK_SECRET secret)) backend = _ :=
          (Procedure.run_within _ _ _ backend).trans
            (by rw [run_handleWebhook_of_refused (not_not.mp refused)])
        exact Procedure.run_bind_error called

/-! ## Requests -/

/-- A guarded request is judged by its call. -/
theorem endpoints_answer (settings : Settings) (backend : Backend)
    (validator : TakesIsoDates isDateString) (valid : call.Valid isDateString) :
    ∃ response, ((endpoints settings).respond backend ⟨.ok (), .ok call⟩).1 = some response ∧
      (call.Succeeds settings backend →
        response.statusCode = call.statusCode ∧ response.isFailed = false) ∧
      (¬ call.Succeeds settings backend →
        response = ⟨(responseData (call.exception backend)).statusCode,
          .failed (responseData (call.exception backend))⟩) := by
  obtain ⟨goes, throws⟩ := answers_call settings backend validator valid
  have judged : Procedure.run (Request.run settings ⟨.ok (), .ok call⟩) backend =
      Procedure.run (call.run settings) backend := rfl
  unfold endpoints
  simp only [judged]
  by_cases succeeds : call.Succeeds settings backend
  · obtain ⟨response, after, ran, code, intact⟩ := goes succeeds
    rw [ran]
    exact ⟨response, rfl, fun _ => ⟨code, intact⟩, fun fails => absurd succeeds fails⟩
  · rw [throws succeeds]
    exact ⟨_, rfl, fun goes => absurd goes succeeds, fun _ => rfl⟩

/-- The body `{"amount": null}` for a stored row, which is valid and cannot be stored. -/
def nullAmountCall : Call := .updateTransaction "receipt" nullAmountDto none

theorem nullAmountCall_answer : ∃ response,
    ((endpoints ⟨sampleServer, none, 1⟩).respond ⟨sampleDb, [], []⟩
        ⟨.ok (), .ok nullAmountCall⟩).1 = some response ∧
      (nullAmountCall.Succeeds ⟨sampleServer, none, 1⟩ ⟨sampleDb, [], []⟩ →
        response.statusCode = nullAmountCall.statusCode ∧ response.isFailed = false) ∧
      (¬ nullAmountCall.Succeeds ⟨sampleServer, none, 1⟩ ⟨sampleDb, [], []⟩ →
        response = ⟨(responseData (nullAmountCall.exception ⟨sampleDb, [], []⟩)).statusCode,
          .failed (responseData (nullAmountCall.exception ⟨sampleDb, [], []⟩))⟩) :=
  endpoints_answer ⟨sampleServer, none, 1⟩ ⟨sampleDb, [], []⟩ takesIsoDates_isIsoText
    ⟨trivial, trivial, trivial, trivial, trivial, trivial⟩

/-! ## Histories -/

/-- What throws, whatever was asked, has changed nothing. -/
def Traceless (procedure : Procedure Backend Exception Response) : Prop :=
  ∀ backend, (∃ response after, procedure.run backend = (.ok response, after) ∧
      response.isFailed = false) ∨
    ∃ exception, procedure.run backend = (.error exception, backend)

theorem traceless_onDb {α : Type} {procedure : Procedure Db Failure α}
    (atomic : ∀ {db failure after}, procedure.run db = (.error failure, after) → after = db)
    (statusCode : ℕ) {body : α → Body}
    (succeeds : ∀ a, Response.isFailed ⟨statusCode, body a⟩ = false) :
    Traceless (do return ⟨statusCode, body (← onDb procedure)⟩) := by
  intro backend
  rcases ran : procedure.run backend.db with ⟨result, db⟩
  cases result with
  | ok a =>
      obtain ⟨response, after, answered, -, intact⟩ := (@answers_onDb backend α procedure True
        .other ⟨fun _ => ⟨a, db, ran⟩, fun no => absurd trivial no⟩ statusCode body succeeds).1
        trivial
      exact Or.inl ⟨response, after, answered, intact⟩
  | error failure =>
      rw [atomic ran] at ran
      exact Or.inr ⟨_, (@answers_onDb backend α procedure False (thrown failure)
        ⟨False.elim, fun _ => ⟨failure, ran, rfl⟩⟩ statusCode body succeeds).2 id⟩

theorem traceless_call (settings : Settings) (call : Call) : Traceless (call.run settings) := by
  have queries : ∀ {α : Type} (queryDto : GetTransactionsQueryDto)
      (answer : List TransactionRow → α) {db : Db} {failure : Failure} {after : Db},
      Procedure.run (do return answer (← buildFilteredQuery settings.server.reader queryDto)) db =
        (.error failure, after) → after = db := by
    intro α queryDto answer db failure after failed
    obtain ⟨reads, rejects⟩ := @run_query settings.server.reader α queryDto answer db
    by_cases readable : queryDto.Readable settings.server.reader
    · obtain ⟨a, other, ran⟩ := reads readable
      cases ran.symm.trans failed
    · cases (rejects readable).symm.trans failed
      rfl
  cases call with
  | getTransactions queryDto order =>
      refine traceless_onDb ?_ 200 fun _ => rfl
      intro db failure after failed
      obtain ⟨answers, rejects⟩ := @run_findAll settings.server.reader order queryDto db
      by_cases condition : queryDto.Readable settings.server.reader ∧ queryDto.skip.isSome = true
      · obtain ⟨page, ran⟩ := answers condition
        cases ran.symm.trans failed
      · cases (rejects condition).symm.trans failed
        rfl
  | getSummary queryDto => exact traceless_onDb (queries queryDto _) 200 fun _ => rfl
  | exportTransactions queryDto order => exact traceless_onDb (queries queryDto _) 200 fun _ => rfl
  | updateTransaction id dto editedByHeader => exact traceless_onDb update_error 200 fun _ => rfl
  | createForInternalTesting dto generated => exact traceless_onDb create_error 201 fun _ => rfl
  | handleWebhook secret update delivery =>
      intro backend
      obtain ⟨goes, throws⟩ :=
        @answers_call (.handleWebhook secret update delivery) isIsoText settings backend
          takesIsoDates_isIsoText trivial
      by_cases succeeds : Call.Succeeds settings backend (.handleWebhook secret update delivery)
      · obtain ⟨response, after, ran, -, intact⟩ := goes succeeds
        exact Or.inl ⟨response, after, ran, intact⟩
      · exact Or.inr ⟨_, throws succeeds⟩

/-- Nor does what the guard or a pipe throws. -/
theorem traceless_request (settings : Settings) (request : Request) :
    Traceless (request.run settings) := by
  intro backend
  obtain ⟨guard, arguments⟩ := request
  cases guard with
  | error exception => exact Or.inr ⟨exception, rfl⟩
  | ok _ =>
      cases arguments with
      | error exception => exact Or.inr ⟨exception, rfl⟩
      | ok call => exact traceless_call settings call backend

/-- The response of a call, or the filter's, which leaves everything as it was. -/
theorem respond_cases (settings : Settings) (backend : Backend) (request : Request) :
    (∃ response, ((endpoints settings).respond backend request).1 = some response ∧
        response.isFailed = false) ∨
      ∃ exception, (endpoints settings).respond backend request = (refusal exception, backend) := by
  unfold endpoints
  rcases traceless_request settings request backend with
    ⟨response, after, ran, intact⟩ | ⟨exception, ran⟩
  · refine Or.inl ⟨response, ?_, intact⟩
    simp only [ran]
  · refine Or.inr ⟨exception, ?_⟩
    simp only [ran]

/-- Not answered, or answered with the body of a failure. -/
def isRefused (response : Option Response) : Bool := response.all Response.isFailed

/-- Every request is answered; and those that succeed are answered as if the others had not been
made, and leave the same table and the same messages. -/
theorem endpoints_accepted (settings : Settings) (backend : Backend) (requests : List Request) :
    (∀ exchange ∈ ((endpoints settings).run backend requests).1,
        ∃ response, exchange.2 = some response) ∧
      (endpoints settings).run backend ((Responder.accepted isRefused
          ((endpoints settings).run backend requests).1).map Prod.fst) =
        (Responder.accepted isRefused ((endpoints settings).run backend requests).1,
          ((endpoints settings).run backend requests).2) := by
  refine ⟨?_, Responder.run_accepted ?_ backend requests⟩
  · intro exchange member
    obtain ⟨before, answered⟩ := Responder.exists_respond _ member
    rcases respond_cases settings before exchange.1 with ⟨response, same, -⟩ | ⟨exception, same⟩
    · exact ⟨response, answered.trans same⟩
    · rw [same] at answered
      exact ⟨_, answered⟩
  · intro backend request refused
    rcases respond_cases settings backend request with ⟨response, same, intact⟩ | ⟨exception, same⟩
    · rw [same, isRefused, Option.all_some, intact] at refused
      cases refused
    · rw [same]

end BirrTrack.Application
