import BirrTrack.Application.System

/-! # What one step of the application does

`moves_of_step` lists every effect that an event can have on the system, so that an invariant
needs one case for each effect and looks at no procedure.
-/

namespace BirrTrack.Application

open Processing Transactions Telegram

/-! ## A call of an attempt -/

/-- What a call does: the activity after it and the world after it. -/
inductive Called (server : Server) (attempt : Attempt) (world : World) :
    Pending → Activity → World → Prop where
  | looked (receipt : CreateTransactionDto) (flag : Bool)
      (found : flag = true → ∀ key, receipt.key server.reader = some key →
        ∃ row ∈ world.db.transactions, row.key = key) :
      Called server attempt world (.findDuplicate receipt)
        (.calling (.create { receipt with isDuplicate := flag })) world
  | stored {receipt : CreateTransactionDto} {row : TransactionRow} {db : Db} {activity : Activity}
      (converts : (receipt.toNew server.reader).toRow server.reader attempt.generated = some row)
      (inserts : world.db.insert row = some db)
      (reached : activity = .calling (.emit ((receipt.toNew server.reader).saved row)) ∨
        activity = .threw) :
      Called server attempt world (.create receipt) activity { world with db := db }
  | emitted (transaction : Transaction) {activity : Activity}
      (reached : activity = .returned ∨ activity = .threw) :
      Called server attempt world (.emit transaction) activity
        { world with events := world.events ++ [toResponse transaction] }
  | failed (pending : Pending) : Called server attempt world pending .threw world

section Calls

variable {server : Server} {attempt : Attempt} {world after : World}

/-- A call that may fail does what it does without faults, or nothing, or all of it without saying
so. -/
theorem run_disturbed {α : Type} (fault : Option Fault) (procedure : Procedure World Failure α)
    (world : World) :
    (disturbed fault procedure).run world = procedure.run world ∨
      (disturbed fault procedure).run world = (.error .unavailable, world) ∨
      ∃ failure,
        (disturbed fault procedure).run world = (.error failure, (procedure.run world).2) := by
  cases fault with
  | none => exact Or.inl rfl
  | some moment =>
      cases moment with
      | before => exact Or.inr (Or.inl rfl)
      | after =>
          refine Or.inr (Or.inr ?_)
          rcases ran : procedure.run world with ⟨result, reached⟩
          cases result with
          | ok a => exact ⟨.unavailable, Procedure.run_bind_ok ran⟩
          | error failure => exact ⟨failure, Procedure.run_bind_error ran⟩

theorem run_bind_pure {α β : Type} (procedure : Procedure World Failure α) (f : α → β)
    (world : World) :
    (do let a ← procedure; return f a : Procedure World Failure β).run world =
      ((procedure.run world).1.map f, (procedure.run world).2) := by
  rw [Procedure.run_bind]
  rcases procedure.run world with ⟨result, reached⟩
  cases result <;> rfl

/-- A procedure on the database leaves the rest of the world as it was. -/
theorem run_inDb {α : Type} (procedure : Procedure Db Failure α) (world : World) :
    (inDb procedure).run world =
      ((procedure.run world.db).1, { world with db := (procedure.run world.db).2 }) := rfl

theorem called_findDuplicate (receipt : CreateTransactionDto) :
    Called server attempt world (.findDuplicate receipt)
      (.after (((Pending.findDuplicate receipt).run server attempt).run world).1)
      (((Pending.findDuplicate receipt).run server attempt).run world).2 := by
  rw [Pending.run, run_bind_pure]
  obtain ⟨answer, looked⟩ : ∃ answer, (inDb (Transactions.findDuplicate server.reader
      receipt.transactionId receipt.amount receipt.timestamp)).run world = (answer, world) :=
    ⟨_, rfl⟩
  rcases run_disturbed (attempt.faults .findDuplicate) (inDb (Transactions.findDuplicate
    server.reader receipt.transactionId receipt.amount receipt.timestamp)) world with
    same | same | ⟨failure, same⟩
  · rw [same, looked]
    cases answer with
    | ok duplicate =>
        refine .looked receipt duplicate.isSome ?_
        intro some key known
        rw [run_inDb, findDuplicate_of_key known] at looked
        cases looked
        rw [isSome_find?, List.any_eq_true] at some
        obtain ⟨row, member, same⟩ := some
        exact ⟨row, member, of_decide_eq_true same⟩
    | error failure => exact .failed _
  · rw [same]
    exact .failed _
  · rw [same, looked]
    exact .failed _

theorem called_create (receipt : CreateTransactionDto) :
    Called server attempt world (.create receipt)
      (.after (((Pending.create receipt).run server attempt).run world).1)
      (((Pending.create receipt).run server attempt).run world).2 := by
  rw [Pending.run, run_bind_pure]
  rcases created : (Transactions.create server.reader attempt.generated receipt).run world.db with
    ⟨result, db⟩
  have ran : (inDb (Transactions.create server.reader attempt.generated receipt)).run world =
      (result, { world with db := db }) := by
    rw [run_inDb, created]
  rcases run_disturbed (attempt.faults .create)
    (inDb (Transactions.create server.reader attempt.generated receipt)) world with
    same | same | ⟨failure, same⟩
  · rw [same, ran]
    cases result with
    | ok saved =>
        obtain ⟨row, converts, inserts, rfl⟩ := create_eq_ok.mp created
        exact .stored converts inserts (Or.inl rfl)
    | error failure =>
        rw [create_error created]
        exact .failed _
  · rw [same]
    exact .failed _
  · rw [same, ran]
    cases result with
    | ok saved =>
        obtain ⟨row, converts, inserts, -⟩ := create_eq_ok.mp created
        exact .stored converts inserts (Or.inr rfl)
    | error thrown =>
        rw [create_error created]
        exact .failed _

theorem called_emit (transaction : Transaction) :
    Called server attempt world (.emit transaction)
      (.after (((Pending.emit transaction).run server attempt).run world).1)
      (((Pending.emit transaction).run server attempt).run world).2 := by
  rw [Pending.run, run_bind_pure]
  rcases run_disturbed (attempt.faults .emit) (emitTransactionNew (toResponse transaction)) world
    with same | same | ⟨failure, same⟩
  · rw [same]
    exact .emitted transaction (Or.inl rfl)
  · rw [same]
    exact .failed _
  · rw [same]
    exact .emitted transaction (Or.inr rfl)

/-- Every call is one of these. -/
theorem called_run (pending : Pending) :
    Called server attempt world pending (.after ((pending.run server attempt).run world).1)
      ((pending.run server attempt).run world).2 := by
  cases pending with
  | findDuplicate receipt => exact called_findDuplicate receipt
  | create receipt => exact called_create receipt
  | emit transaction => exact called_emit transaction

end Calls

/-! ## A webhook request -/

/-- The event is a webhook request that queues a job for this photo of this user. -/
inductive Queues (settings : Settings) : SystemEvent → User → PhotoSize → Prop where
  | message {delivery : Delivery} {secret : String} {photos : List PhotoSize} {user : User}
      {photo : PhotoSize} (known : ¬ Refused settings.TELEGRAM_WEBHOOK_SECRET secret)
      (admitted : delivery.guard = .ok ()) (identified : user.id ≠ 0)
      (sent : delivery.add ≠ some .before) (member : photo ∈ photos)
      (largest : ∀ other ∈ photos, other.area ≤ photo.area) :
      Queues settings (.webhook delivery secret (.message ⟨some user, .photo photos⟩)) user photo

section Webhooks

variable {settings : Settings} {delivery : Delivery} {secret : String}
  {context : Telegram.Update} {outbox : Outbox}

/-- A handler of a text only replies. -/
theorem run_reply_jobs (fault : Option Fault) (text : String) (outbox : Outbox) :
    ((reply fault text).run outbox).2.jobs = outbox.jobs ∧
      outbox.replies <+: ((reply fault text).run outbox).2.replies := by
  rw [reply, run_sending]
  split
  next => exact ⟨rfl, List.prefix_refl _⟩
  next => exact ⟨rfl, List.prefix_append _ _⟩

/-- A photo handler queues a job for the sender of a `message` and does nothing else. -/
theorem run_handlePhotoMessage_cases (context : Telegram.Update) (outbox : Outbox) :
    ((handlePhotoMessage delivery context).run outbox).2 = outbox ∨
      ∃ photos user photo, context = .message ⟨some user, .photo photos⟩ ∧ user.id ≠ 0 ∧
        delivery.add ≠ some .before ∧ photo ∈ photos ∧
        (∀ other ∈ photos, other.area ≤ photo.area) ∧
        ((handlePhotoMessage delivery context).run outbox).2 =
          { outbox with jobs := outbox.jobs ++ [payloadOf user photo] } := by
  cases context with
  | edited_message received => exact Or.inl rfl
  | other => exact Or.inl rfl
  | message received =>
      obtain ⟨sender, content⟩ := received
      cases content with
      | text text => exact Or.inl rfl
      | other => exact Or.inl rfl
      | photo photos =>
          cases sender with
          | none => exact Or.inl rfl
          | some user =>
              by_cases empty : photos = []
              · subst empty
                exact Or.inl rfl
              obtain ⟨photo, member, largest, sent⟩ :=
                @run_handlePhotoMessage delivery photos user empty outbox
              by_cases stopped : user.id = 0 ∨ delivery.add = some .before
              · rw [if_pos stopped] at sent
                exact Or.inl sent
              · rw [if_neg stopped] at sent
                obtain ⟨identified, reaches⟩ := not_or.mp stopped
                exact Or.inr ⟨photos, user, photo, rfl, identified, reaches, member, largest, sent⟩

/-- Of all updates only a photo in a `message` queues a job, and only past the guard. -/
theorem run_handleUpdate_cases (context : Telegram.Update) (outbox : Outbox) :
    (((handleUpdate delivery context).run outbox).2.jobs = outbox.jobs ∧
        outbox.replies <+: ((handleUpdate delivery context).run outbox).2.replies) ∨
      ∃ photos user photo, context = .message ⟨some user, .photo photos⟩ ∧
        delivery.guard = .ok () ∧ user.id ≠ 0 ∧ delivery.add ≠ some .before ∧ photo ∈ photos ∧
        (∀ other ∈ photos, other.area ≤ photo.area) ∧
        ((handleUpdate delivery context).run outbox).2 =
          { outbox with jobs := outbox.jobs ++ [payloadOf user photo] } := by
  have unchanged : outbox.jobs = outbox.jobs ∧ outbox.replies <+: outbox.replies :=
    ⟨rfl, List.prefix_refl _⟩
  unfold handleUpdate
  split
  next received text =>
    left
    split
    all_goals
      simp only [run_inTelegraf]
      cases delivery.guard with
      | error exception => exact unchanged
      | ok _ => exact run_reply_jobs delivery.reply _ outbox
  next sender photos =>
    simp only [run_inTelegraf, handlePhoto]
    cases admitted : delivery.guard with
    | error exception => exact Or.inl unchanged
    | ok _ =>
        rcases run_handlePhotoMessage_cases (.message ⟨sender, .photo photos⟩) outbox with
          same | ⟨photos', user, photo, same, identified, sent, member, largest, queued⟩
        · exact Or.inl ⟨congrArg Outbox.jobs same, same.symm ▸ unchanged.2⟩
        · exact Or.inr ⟨photos', user, photo, same, rfl, identified, sent, member, largest, queued⟩
  next received =>
    left
    simp only [run_inTelegraf]
    cases delivery.guard with
    | error exception => exact unchanged
    | ok _ =>
        simp only [handleEditedMessage]
        split
        next =>
          split
          next => exact unchanged
          next => exact unchanged
        next => exact unchanged
  next => exact Or.inl unchanged

/-- A webhook request sends replies, or it queues one job. -/
theorem webhook_cases (system : System) :
    (∃ replies, system.replies <+: replies ∧
        system.webhook settings delivery secret context = { system with replies := replies }) ∨
      ∃ user photo, Queues settings (.webhook delivery secret context) user photo ∧
        system.webhook settings delivery secret context =
          { system with jobs := system.jobs ++ [.added (payloadOf user photo)] } := by
  by_cases refused : Refused settings.TELEGRAM_WEBHOOK_SECRET secret
  · refine Or.inl ⟨system.replies, List.prefix_refl _, ?_⟩
    simp only [System.webhook, run_handleWebhook_of_refused refused, List.map_nil, List.append_nil]
  rcases @run_handleUpdate_cases delivery context ⟨[], system.replies⟩ with
    ⟨jobs, replies⟩ |
      ⟨photos, user, photo, rfl, admitted, identified, sent, member, largest, queued⟩
  · refine Or.inl ⟨_, replies, ?_⟩
    simp only [System.webhook, run_handleWebhook refused, jobs, List.map_nil, List.append_nil]
  · refine Or.inr ⟨user, photo, .message refused admitted identified sent member largest, ?_⟩
    simp only [System.webhook, run_handleWebhook refused, queued, List.nil_append, List.map_cons,
      List.map_nil]

end Webhooks

/-! ## Any step -/

/-- The rows of the open edits are in the table. -/
def EditsKnown (system : System) : Prop :=
  ∀ edit ∈ system.edits, ∃ row, system.world.db.find edit.existing.id = some row

/-- A commit whose log rows and whose SET clause can be stored writes these. -/
structure Writes (reader : Js.DateReader) (edit : OpenEdit) (before after : Db)
    (logs : List EditLog) (change : RowChange) : Prop where
  logged : logRows edit.existing edit.dto edit.editedBy
    (changedFields edit.existing edit.dto) = some logs
  sets : changeOf reader edit.dto = some change
  rows : after.transactions = Db.updateRows before.transactions edit.existing.id change
  appended : after.editLogs = before.editLogs ++ logs

/-- What an event does to the system. -/
inductive Moves (settings : Settings) (system : System) : SystemEvent → System → Prop where
  | replied {delivery : Delivery} {secret : String} {context : Telegram.Update}
      {replies : List String} (longer : system.replies <+: replies) :
      Moves settings system (.webhook delivery secret context) { system with replies := replies }
  | queued {event : SystemEvent} {user : User} {photo : PhotoSize}
      (queues : Queues settings event user photo) :
      Moves settings system event
        { system with jobs := system.jobs ++ [.added (payloadOf user photo)] }
  | begun {index : ℕ} {attempt : Attempt} {job : QueueJob} (found : system.jobs[index]? = some job)
      (waiting : job.status = .waiting) (capacity : system.activeJobs < concurrency) :
      Moves settings system (.begin index attempt)
        { system with jobs := system.jobs.set index (job.begin settings.server attempt) }
  | called {index : ℕ} {attempt : Attempt} {job : QueueJob} {pending : Pending}
      {activity : Activity} {world : World} (found : system.jobs[index]? = some job)
      (active : job.status = .active attempt (.calling pending))
      (calls : Called settings.server attempt system.world pending activity world) :
      Moves settings system (.advance index)
        { system with
          world := world
          jobs := system.jobs.set index { job with status := .active attempt activity } }
  | settled {index : ℕ} {job settled : QueueJob} (found : system.jobs[index]? = some job)
      (settles : job.settle = some settled) :
      Moves settings system (.settle index)
        { system with jobs := system.jobs.set index settled }
  | restarted : Moves settings system .restart (system.restart settings)
  | posted {generated : Generated} {dto : CreateTransactionDto} {row : TransactionRow} {db : Db}
      (converts : (dto.toNew settings.server.reader).toRow settings.server.reader generated =
        some row)
      (inserts : system.world.db.insert row = some db) :
      Moves settings system (.post generated dto)
        { system with world := { system.world with db := db } }
  | unposted {generated : Generated} {dto : CreateTransactionDto} :
      Moves settings system (.post generated dto) system
  | opened {id : String} {dto : UpdateTransactionDto} {header : Option String}
      {row : TransactionRow} (found : system.world.db.find id = some row) :
      Moves settings system (.read id dto header)
        { system with edits := system.edits ++ [⟨row.toEntity, dto, editedBy header⟩] }
  | unread {id : String} {dto : UpdateTransactionDto} {header : Option String} :
      Moves settings system (.read id dto header) system
  | committed {index : ℕ} {edit : OpenEdit} {db : Db} {logs : List EditLog} {change : RowChange}
      (found : system.edits[index]? = some edit)
      (writes : Writes settings.server.reader edit system.world.db db logs change) :
      Moves settings system (.commit index)
        { system with
          world := { system.world with db := db }
          edits := system.edits.eraseIdx index }
  | uncommitted {index : ℕ} {edit : OpenEdit} (found : system.edits[index]? = some edit) :
      Moves settings system (.commit index) { system with edits := system.edits.eraseIdx index }

section Moves

variable {settings : Settings} {system next : System}

/-- What beginning an attempt does. -/
theorem moves_begin {index : ℕ} {attempt : Attempt}
    (step : system.begin settings index attempt = some next) :
    Moves settings system (.begin index attempt) next := by
  unfold System.begin at step
  split at step
  next job found =>
    split at step
    next waiting =>
      split at step
      next capacity =>
        cases step
        exact .begun found waiting capacity
      next => cases step
    next => cases step
  next => cases step

/-- What a call of an attempt does. -/
theorem moves_advance {index : ℕ} (step : system.advance settings index = some next) :
    Moves settings system (.advance index) next := by
  unfold System.advance at step
  split at step
  next job found =>
    split at step
    next attempt pending active =>
      cases step
      exact .called found active (called_run pending)
    next => cases step
  next => cases step

/-- What settling a job does. -/
theorem moves_settle {index : ℕ} (step : system.settle index = some next) :
    Moves settings system (.settle index) next := by
  unfold System.settle at step
  split at step
  next job found =>
    obtain ⟨settled, settles, rfl⟩ := Option.map_eq_some_iff.mp step
    exact .settled found settles
  next => cases step

/-- What a POST request does. -/
theorem moves_post (generated : Generated) (dto : CreateTransactionDto) :
    Moves settings system (.post generated dto)
      (system.inDb (Transactions.create settings.server.reader generated dto)) := by
  rcases created : (Transactions.create settings.server.reader generated dto).run system.world.db
    with ⟨result, db⟩
  rw [System.inDb, created]
  cases result with
  | ok saved =>
      obtain ⟨row, converts, inserts, -⟩ := create_eq_ok.mp created
      exact .posted converts inserts
  | error failure =>
      rw [create_error created]
      exact .unposted

/-- What the reading half of a PATCH request does. -/
theorem moves_read (id : String) (dto : UpdateTransactionDto) (header : Option String) :
    Moves settings system (.read id dto header) (system.read id dto header) := by
  unfold System.read
  split
  next => exact .unread
  next row found => exact .opened found

/-- What its transaction does. -/
theorem moves_commit {index : ℕ} (known : EditsKnown system)
    (step : system.commit settings index = some next) :
    Moves settings system (.commit index) next := by
  unfold System.commit at step
  split at step
  next => cases step
  next edit found =>
    cases step
    obtain ⟨row, present⟩ := known edit (List.mem_of_getElem? found)
    rcases updated : Procedure.run (updateExisting settings.server.reader edit.existing edit.dto
      edit.editedBy) system.world.db with ⟨result, db⟩
    rw [System.inDb, updated]
    cases result with
    | ok response =>
        obtain ⟨logs, change, logged, sets, rows, appended⟩ :=
          (updateExisting_eq_ok present).mp ⟨response, updated⟩
        exact .committed found ⟨logged, sets, rows, appended⟩
    | error failure =>
        rw [updateExisting_error updated]
        exact .uncommitted found

/-- Every step is one of these. -/
theorem moves_of_step {event : SystemEvent} (known : EditsKnown system)
    (step : (application settings).step system event = some next) :
    Moves settings system event next := by
  cases event with
  | webhook delivery secret context =>
      cases step
      rcases @webhook_cases settings delivery secret context system with
        ⟨replies, longer, same⟩ | ⟨user, photo, queues, same⟩
      · rw [same]
        exact .replied longer
      · rw [same]
        exact .queued queues
  | begin index attempt => exact moves_begin step
  | advance index => exact moves_advance step
  | settle index => exact moves_settle step
  | restart =>
      cases step
      exact .restarted
  | post generated dto =>
      cases step
      exact moves_post generated dto
  | read id dto header =>
      cases step
      exact moves_read id dto header
  | commit index => exact moves_commit known step

end Moves

end BirrTrack.Application
