import BirrTrack.Application.Contents

/-! # Where rows and log rows come from

Every row of a reachable system was posted by a client or belongs to the sender of a photo that
an accepted webhook request brought in; every log row tells what a PATCH request read and what it
was given.
-/

namespace BirrTrack.Application

open Processing Transactions Telegram Database

variable {settings : Settings} {past : List SystemEvent} {system next : System}
  {event : SystemEvent} {row : TransactionRow} {log : EditLog}

/-! ## Sources -/

/-- A client posted the row. -/
def Posted (settings : Settings) (past : List SystemEvent) (row : TransactionRow) : Prop :=
  ∃ generated dto posted, .post generated dto ∈ past ∧
    (dto.toNew settings.server.reader).toRow settings.server.reader generated = some posted ∧
    row.origin = posted.origin

/-- An accepted webhook request queued a photo of the user whose id and name, as the column keeps
it, the row has. -/
def Received (settings : Settings) (past : List SystemEvent) (row : TransactionRow) : Prop :=
  ∃ event ∈ past, ∃ user photo, Queues settings event user photo ∧
    row.telegramUserId.text = toString user.id ∧
    Varchar.ofString 255 (buildDisplayName user.first_name user.last_name user.username) =
      some row.telegramName

/-- What a PATCH request read of a row, and with what it then edits it. -/
structure ReadAt (settings : Settings) (past : List SystemEvent) (row : TransactionRow)
    (dto : UpdateTransactionDto) (header : Option String) : Prop where
  moment : ∃ front before, front ++ [.read row.id dto header] <+: past ∧
    (application settings).run .initial front = some before ∧
    row ∈ before.world.db.transactions

/-- The log row has the value that a PATCH request read and, differing from it, the value that
the request gave, with the request's editor. -/
def Edited (settings : Settings) (past : List SystemEvent) (log : EditLog) : Prop :=
  ∃ row dto header, ReadAt settings past row dto header ∧ log.transactionId = row.id ∧
    log.editedBy.value = editedBy header ∧ dto.get log.fieldName ≠ .undefined ∧
    log.oldValue.map Text.value = readFieldValue (row.stored log.fieldName) ∧
    log.newValue.map Text.value = readFieldValue (dto.get log.fieldName) ∧
    log.oldValue ≠ log.newValue

theorem Posted.of_origin {other : TransactionRow} (posted : Posted settings past row)
    (same : other.origin = row.origin) : Posted settings past other := by
  obtain ⟨generated, dto, stored, member, converts, origin⟩ := posted
  exact ⟨generated, dto, stored, member, converts, same.trans origin⟩

theorem Received.of_origin {other : TransactionRow} (received : Received settings past row)
    (same : other.origin = row.origin) : Received settings past other := by
  obtain ⟨source, member, user, photo, queues, id, name⟩ := received
  have sameId : other.telegramUserId = row.telegramUserId := congrArg Origin.telegramUserId same
  have sameName : other.telegramName = row.telegramName := congrArg Origin.telegramName same
  exact ⟨source, member, user, photo, queues, sameId ▸ id, sameName ▸ name⟩

theorem ReadAt.append {dto : UpdateTransactionDto} {header : Option String}
    (read : ReadAt settings past row dto header) (event : SystemEvent) :
    ReadAt settings (past ++ [event]) row dto header := by
  obtain ⟨front, before, isPrefix, rest⟩ := read.moment
  exact ⟨front, before, isPrefix.trans (List.prefix_append _ _), rest⟩

theorem Edited.append (edited : Edited settings past log) (event : SystemEvent) :
    Edited settings (past ++ [event]) log := by
  obtain ⟨row, dto, header, read, rest⟩ := edited
  exact ⟨row, dto, header, read.append event, rest⟩

/-! ## The invariant -/

/-- The sender that a call is about to record or to announce. -/
def Pending.Sender (data : ImageProcessingJobPayload) : Pending → Prop
  | findDuplicate receipt | create receipt =>
      receipt.telegramUserId = data.telegramUserId ∧ receipt.telegramName = data.telegramName
  | emit transaction =>
      transaction.telegramUserId = data.telegramUserId ∧
        transaction.telegramName = data.telegramName

/-- An accepted webhook request queued the job, and its calls name the same sender. -/
structure JobSound (settings : Settings) (past : List SystemEvent) (job : QueueJob) : Prop where
  source : ∃ event ∈ past, ∃ user photo, Queues settings event user photo ∧
    job.data = payloadOf user photo
  sender : ∀ attempt pending, job.status = .active attempt (.calling pending) →
    pending.Sender job.data

/-- What is known of the log and of the open edits. -/
structure EditsSound (settings : Settings) (past : List SystemEvent) (system : System) : Prop where
  editLogs : ∀ log ∈ system.world.db.editLogs, Edited settings past log
  edits : ∀ edit ∈ system.edits, ∃ row header, edit.existing = row.toEntity ∧
    edit.editedBy = editedBy header ∧ ReadAt settings past row edit.dto header

structure Sound (settings : Settings) (past : List SystemEvent) (system : System) : Prop
    extends EditsSound settings past system where
  rows : ∀ row ∈ system.world.db.transactions,
    Posted settings past row ∨ Received settings past row
  jobs : ∀ job ∈ system.jobs, JobSound settings past job

theorem EditsSound.append (sound : EditsSound settings past system) (event : SystemEvent) :
    EditsSound settings (past ++ [event]) system where
  editLogs log member := (sound.editLogs log member).append event
  edits edit member := by
    obtain ⟨row, header, existing, editor, read⟩ := sound.edits edit member
    exact ⟨row, header, existing, editor, read.append event⟩

/-! ## Rows and jobs -/

/-- A receipt names the sender of its job. -/
theorem receiptOf_sender {server : Server} {attempt : Attempt} {data : ImageProcessingJobPayload}
    {receipt : CreateTransactionDto} (read : receiptOf server attempt data = .ok (some receipt)) :
    receipt.telegramUserId = data.telegramUserId ∧ receipt.telegramName = data.telegramName := by
  unfold receiptOf at read
  obtain ⟨fileUrl, -, read⟩ := Procedure.bind_eq_ok.mp read
  obtain ⟨imageBuffer, -, read⟩ := Procedure.bind_eq_ok.mp read
  obtain ⟨ocrText, -, read⟩ := Procedure.bind_eq_ok.mp read
  obtain ⟨parsed, -, read⟩ := Procedure.bind_eq_ok.mp read
  simp only [pure, Except.pure, Except.ok.injEq, Option.map_eq_some_iff] at read
  obtain ⟨fields, -, rfl⟩ := read
  exact ⟨rfl, rfl⟩

theorem Pending.ReadBy.sender {server : Server} {attempt : Attempt}
    {data : ImageProcessingJobPayload} {pending : Pending}
    (reads : pending.ReadBy server attempt data) : pending.Sender data := by
  cases pending with
  | findDuplicate receipt => exact receiptOf_sender reads
  | create dto =>
      obtain ⟨receipt, isDuplicate, read, rfl⟩ := reads
      have sender := receiptOf_sender read
      exact sender
  | emit transaction =>
      obtain ⟨receipt, isDuplicate, row, read, rfl⟩ := reads
      have sender := receiptOf_sender read
      exact sender

theorem QueuedAs.source {index : ℕ} {user : User} {photo : PhotoSize}
    (queued : QueuedAs settings past index user photo) :
    ∃ event ∈ past, Queues settings event user photo := by
  obtain ⟨front, event, before, isPrefix, -, -, queues⟩ := queued
  exact ⟨event, isPrefix.subset (List.mem_append_right _ (List.mem_singleton_self _)), queues⟩

theorem JobTraced.sound {index : ℕ} {job : QueueJob} (traced : JobTraced settings past index job) :
    JobSound settings past job := by
  obtain ⟨user, photo, queued, data⟩ := traced.queued
  obtain ⟨event, member, queues⟩ := queued.source
  exact ⟨⟨event, member, user, photo, queues, data⟩,
    fun attempt pending active => (traced.calling attempt pending active).2.sender⟩

/-- An inserted row was posted or names the sender of its photo. -/
theorem Inserted.source (inserted : Inserted settings past row) :
    Posted settings past row ∨ Received settings past row := by
  cases inserted with
  | posted request converts => exact Or.inl ⟨_, _, row, request, converts, rfl⟩
  | @read index attempt user photo receipt isDuplicate row queued begun reads converts =>
      obtain ⟨event, member, queues⟩ := queued.source
      obtain ⟨sameId, sameName⟩ := receiptOf_sender reads
      obtain ⟨-, id, name, -⟩ := toRow_eq_some.mp converts
      simp only [payloadOf] at sameId sameName
      have stored : Bigint.ofText (toString user.id) = some row.telegramUserId := by
        rw [← sameId]
        exact id
      exact Or.inr ⟨event, member, user, photo, queues, Bigint.text_of_toString stored,
        sameName ▸ name⟩

/-! ## Log rows and open edits -/

/-- An editor's name does not end in a blank. -/
theorem getLast?_editedBy (header : Option String) :
    (editedBy header).toList.getLast? ≠ some ' ' := by
  have ends : ∀ text : String, (trimmed text).toList.getLast? ≠ some ' ' := by
    intro text blank
    have stops := List.head?_dropWhile_not Processing.isSpace
      (text.toList.dropWhile Processing.isSpace).reverse
    rw [trimmed, String.toList_ofList, trim, List.getLast?_reverse] at blank
    rw [blank] at stops
    exact absurd stops (by decide)
  unfold editedBy
  simp only
  split
  · cases header with
    | none => decide
    | some text => exact ends text
  · decide

/-- The log rows of a commit tell what its request read and was given. -/
theorem edited_of_writes {edit : OpenEdit} {db after : Db} {logs : List EditLog}
    {change : RowChange} {header : Option String} (existing : edit.existing = row.toEntity)
    (editor : edit.editedBy = editedBy header) (read : ReadAt settings past row edit.dto header)
    (writes : Writes settings.server.reader edit db after logs change) :
    ∀ log ∈ logs, Edited settings past log := by
  intro log member
  obtain ⟨names, each⟩ := logRows_spec writes.logged
  obtain ⟨id, old, new, by_⟩ := each log member
  have changed : log.fieldName ∈ changedFields edit.existing edit.dto :=
    names ▸ List.mem_map_of_mem member
  obtain ⟨given, differs⟩ := mem_changedFields.mp changed
  rw [editor] at by_
  refine ⟨row, edit.dto, header, read, ?_,
    Varchar.value_of_getLast by_ (getLast?_editedBy header), given, ?_, new, ?_⟩
  · rw [id, existing]
    rfl
  · rw [old, existing]
    rfl
  · intro same
    rw [← old, ← new, same] at differs
    exact differs rfl

theorem editsSound_of_moves (sound : EditsSound settings past system)
    (reached : (application settings).run .initial past = some system)
    (moves : Moves settings system event next) : EditsSound settings (past ++ [event]) next := by
  have kept := sound.append event
  cases moves with
  | called found active calls =>
      refine ⟨?_, kept.edits⟩
      cases calls with
      | stored converts inserts =>
          rw [(Db.insert_eq_some.mp inserts).2.2]
          exact kept.editLogs
      | _ => exact kept.editLogs
  | restarted => exact ⟨kept.editLogs, fun _ member => absurd member List.not_mem_nil⟩
  | posted converts inserts =>
      refine ⟨?_, kept.edits⟩
      rw [(Db.insert_eq_some.mp inserts).2.2]
      exact kept.editLogs
  | @opened id dto header row found =>
      obtain ⟨present, rfl⟩ := Db.find_eq_some.mp found
      refine ⟨kept.editLogs, ?_⟩
      intro edit member
      rcases List.mem_append.mp member with earlier | last
      · exact kept.edits edit earlier
      · rw [List.mem_singleton] at last
        subst last
        exact ⟨row, header, rfl, rfl, past, system, List.prefix_refl _, reached, present⟩
  | @committed index edit db logs change found writes =>
      refine ⟨?_, fun edit member => kept.edits edit (List.mem_of_mem_eraseIdx member)⟩
      intro log member
      rw [writes.appended] at member
      rcases List.mem_append.mp member with earlier | new
      · exact kept.editLogs log earlier
      · obtain ⟨row, header, existing, editor, read⟩ :=
          kept.edits edit (List.mem_of_getElem? found)
        exact edited_of_writes existing editor read writes log new
  | uncommitted found =>
      exact ⟨kept.editLogs, fun edit member => kept.edits edit (List.mem_of_mem_eraseIdx member)⟩
  | _ => exact ⟨kept.editLogs, kept.edits⟩

theorem editsSound_run (reached : (application settings).run .initial past = some system) :
    EditsSound settings past system := by
  refine (EventMachine.run_history (fun past system =>
    (application settings).run .initial past = some system ∧ EditsKnown system ∧
      EditsSound settings past system) ⟨rfl, editsKnown_initial, ?_⟩ ?_ reached).2.2
  · exact ⟨fun _ member => absurd member List.not_mem_nil,
      fun _ member => absurd member List.not_mem_nil⟩
  · intro past system event next good step
    obtain ⟨ran, known, sound⟩ := good
    exact ⟨EventMachine.run_concat_eq_some.mpr ⟨system, ran, step⟩, editsKnown_step known step,
      editsSound_of_moves sound ran (moves_of_step known step)⟩

/-- Every reachable system is sound. -/
theorem sound_run (reached : (application settings).run .initial past = some system) :
    Sound settings past system := by
  have traced := traced_run reached
  refine ⟨editsSound_run reached, ?_, ?_⟩
  · intro row member
    obtain ⟨inserted, source, sourced⟩ := traced.rows row member
    exact source.source.imp (·.of_origin sourced.origin) (·.of_origin sourced.origin)
  · intro job member
    obtain ⟨index, found⟩ := List.getElem?_of_mem member
    exact (traced.jobs index job found).sound

/-- Every row was posted by a client or belongs to the sender of a photo that an accepted webhook
request brought in, however it was edited since. -/
theorem run_rows_provenance (settings : Settings) {events : List SystemEvent} {system : System}
    (ran : (application settings).run .initial events = some system) :
    ∀ row ∈ system.world.db.transactions,
      Posted settings events row ∨ Received settings events row :=
  (sound_run ran).rows

/-- Both rows of the sample run are the sender's. -/
theorem sampleRun_rows_provenance : ∃ system,
    (application sampleSettings).run .initial sampleRun = some system ∧
      ∀ row ∈ system.world.db.transactions,
        Posted sampleSettings sampleRun row ∨ Received sampleSettings sampleRun row := by
  obtain ⟨system, ran, -⟩ := run_sampleRun
  exact ⟨system, ran, run_rows_provenance sampleSettings ran⟩

/-- Every log row has a value that its field held when a PATCH request read the row, the other
value that this request gave, and the request's editor. -/
theorem run_editLogs_provenance (settings : Settings) {events : List SystemEvent}
    {system : System} (ran : (application settings).run .initial events = some system) :
    ∀ log ∈ system.world.db.editLogs, Edited settings events log :=
  (sound_run ran).editLogs

theorem sampleRun_editLogs_provenance : ∃ system,
    (application sampleSettings).run .initial sampleRun = some system ∧
      ∀ log ∈ system.world.db.editLogs, Edited sampleSettings sampleRun log := by
  obtain ⟨system, ran, -⟩ := run_sampleRun
  exact ⟨system, ran, run_editLogs_provenance sampleSettings ran⟩

end BirrTrack.Application
