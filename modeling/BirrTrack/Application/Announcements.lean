import BirrTrack.Application.Provenance

/-! # What `transaction:new` announces

Retries and restarts may store a receipt twice, but each stored row is announced at most once,
and nothing else is. A job that is reported as completed found no receipt, or its row is in the
table and announced.
-/

namespace BirrTrack.Application

open Processing Transactions Telegram Database

/-! ## Pending announcements -/

/-- The transaction that a job is about to announce. -/
def QueueJob.emitting (job : QueueJob) : Option Transaction :=
  match job.status with
  | .active _ (.calling (.emit transaction)) => some transaction
  | _ => none

def emittingAt (jobs : List QueueJob) (index : ℕ) : Option Transaction :=
  jobs[index]?.bind QueueJob.emitting

section Jobs

variable {jobs : List QueueJob} {index : ℕ} {job other : QueueJob}

theorem emittingAt_of_get (found : jobs[index]? = some job) :
    emittingAt jobs index = job.emitting := by
  rw [emittingAt, found, Option.bind_some]

/-- After a job was replaced, its announcement is the new one and the others are as before. -/
theorem emittingAt_set (found : jobs[index]? = some job) (place : ℕ) :
    emittingAt (jobs.set index other) place =
      if index = place then other.emitting else emittingAt jobs place := by
  obtain ⟨inside, -⟩ := List.getElem?_eq_some_iff.mp found
  rw [emittingAt, List.getElem?_set]
  by_cases same : index = place
  · subst same
    simp only [inside, ↓reduceIte, Option.bind_some]
  · simp only [same, ↓reduceIte, emittingAt]

theorem emittingAt_append (quiet : other.emitting = none) (place : ℕ) {transaction : Transaction}
    (emits : emittingAt (jobs ++ [other]) place = some transaction) :
    emittingAt jobs place = some transaction := by
  unfold emittingAt at emits ⊢
  rw [List.getElem?_append] at emits
  split at emits
  next => exact emits
  next =>
    obtain ⟨job, found, emits⟩ := Option.bind_eq_some_iff.mp emits
    have member := List.mem_of_getElem? found
    rw [List.mem_singleton] at member
    rw [member, quiet] at emits
    cases emits

/-- A job without an attempt announces nothing. -/
theorem emitting_of_idle (idle : job.status.isActive = false) : job.emitting = none := by
  unfold QueueJob.emitting
  split
  next active =>
    rw [active] at idle
    cases idle
  next => rfl

theorem begin_emitting (server : Server) (attempt : Attempt) (job : QueueJob) :
    (job.begin server attempt).emitting = none := by
  unfold QueueJob.emitting QueueJob.begin
  simp only
  split
  next active =>
    simp only [JobStatus.active.injEq] at active
    obtain ⟨-, calls⟩ := active
    split at calls <;> cases calls
  next => rfl

end Jobs

/-! ## The invariant -/

/-- The columns that an announcement and its row have in common for good, the name as its column
keeps it. -/
structure Announces (transaction : Transaction) (row : TransactionRow) : Prop where
  id : row.id = transaction.id
  telegramUserId : row.telegramUserId.text = transaction.telegramUserId
  telegramName : Varchar.ofString 255 transaction.telegramName = some row.telegramName
  isDuplicate : row.isDuplicate = transaction.isDuplicate
  createdAt : row.createdAt.instant = transaction.createdAt

def Stored (db : Db) (transaction : Transaction) : Prop :=
  ∃ row ∈ db.transactions, Announces transaction row

def announcedIds (world : World) : List String := world.events.map fun event => event.item.id

/-- Each row is announced at most once, pending announcements counted in, and nothing else is. -/
structure Announced (world : World) (jobs : List QueueJob) : Prop where
  distinct : (announcedIds world).Nodup
  stored : ∀ event ∈ world.events, Stored world.db event.item
  pending : ∀ index transaction, emittingAt jobs index = some transaction →
    transaction.id ∉ announcedIds world ∧ Stored world.db transaction
  apart : ∀ first second transaction other, emittingAt jobs first = some transaction →
    emittingAt jobs second = some other → first ≠ second → transaction.id ≠ other.id

section Steps

variable {settings : Settings} {past : List SystemEvent} {system next : System}
  {event : SystemEvent} {world after : World} {jobs : List QueueJob} {transaction : Transaction}

theorem Announces.of_origin {row other : TransactionRow} (announces : Announces transaction row)
    (same : other.origin = row.origin) : Announces transaction other := by
  obtain ⟨id, user, name, flag, created⟩ := announces
  simp only [TransactionRow.origin, Origin.mk.injEq] at same
  obtain ⟨sameId, sameUser, sameName, sameFlag, sameCreated⟩ := same
  exact ⟨sameId ▸ id, sameUser ▸ user, sameName ▸ name, sameFlag ▸ flag, sameCreated ▸ created⟩

theorem Stored.id_mem {db : Db} (stored : Stored db transaction) :
    transaction.id ∈ db.transactions.map TransactionRow.id := by
  obtain ⟨row, member, announces⟩ := stored
  exact List.mem_map.mpr ⟨row, member, announces.id⟩

/-- Rows that keep their origins stay announced. -/
theorem Stored.mono {db later : Db} (stored : Stored db transaction)
    (rows : db.transactions.map TransactionRow.origin <+:
      later.transactions.map TransactionRow.origin) : Stored later transaction := by
  obtain ⟨row, member, announces⟩ := stored
  obtain ⟨kept, present, same⟩ := List.mem_map.mp (rows.subset (List.mem_map_of_mem member))
  exact ⟨kept, present, announces.of_origin same⟩

/-- A step without a new announcement, pending or made. -/
theorem Announced.quiet {later : List QueueJob} (announced : Announced world jobs)
    (rows : world.db.transactions.map TransactionRow.origin <+:
      after.db.transactions.map TransactionRow.origin)
    (events : after.events = world.events)
    (jobsQuiet : ∀ index transaction, emittingAt later index = some transaction →
      emittingAt jobs index = some transaction) : Announced after later where
  distinct := by
    rw [announcedIds, events]
    exact announced.distinct
  stored event member := (announced.stored event (events ▸ member)).mono rows
  pending index transaction emits := by
    obtain ⟨unannounced, stored⟩ := announced.pending index transaction (jobsQuiet _ _ emits)
    rw [announcedIds, events]
    exact ⟨unannounced, stored.mono rows⟩
  apart first second transaction other emits emits' :=
    announced.apart first second transaction other (jobsQuiet _ _ emits) (jobsQuiet _ _ emits')

theorem Announced.set_quiet {index : ℕ} {job other : QueueJob} (announced : Announced world jobs)
    (found : jobs[index]? = some job) (quiet : other.emitting = none) :
    Announced world (jobs.set index other) := by
  refine announced.quiet (List.prefix_refl _) rfl ?_
  intro place transaction emits
  rw [emittingAt_set found] at emits
  split at emits
  next =>
    rw [quiet] at emits
    cases emits
  next => exact emits

/-- The row of a job's receipt has the sender's id as its text. -/
theorem announces_saved {job : QueueJob} {receipt : CreateTransactionDto} {generated : Generated}
    {row : TransactionRow} (sound : JobSound settings past job)
    (sender : receipt.telegramUserId = job.data.telegramUserId ∧
      receipt.telegramName = job.data.telegramName)
    (converts : (receipt.toNew settings.server.reader).toRow settings.server.reader generated =
      some row) :
    Announces ((receipt.toNew settings.server.reader).saved row) row := by
  obtain ⟨⟨-, -, flag, -⟩, id, name, -⟩ := toRow_eq_some.mp converts
  obtain ⟨source, member, user, photo, queues, data⟩ := sound.source
  simp only [data, payloadOf] at sender
  have stored : Bigint.ofText (toString user.id) = some row.telegramUserId := by
    rw [← sender.1]
    exact id
  exact ⟨rfl, (Bigint.text_of_toString stored).trans sender.1.symm, name, flag, rfl⟩

/-- A job that has stored its row is about to announce it, as the only one. -/
theorem Announced.store {index : ℕ} {job other : QueueJob} {db : Db} {row : TransactionRow}
    (announced : Announced world jobs) (found : jobs[index]? = some job)
    (inserts : world.db.insert row = some db) (emits : other.emitting = some transaction)
    (announces : Announces transaction row) :
    Announced { world with db := db } (jobs.set index other) := by
  obtain ⟨fresh, rows, -⟩ := Db.insert_eq_some.mp inserts
  have kept : world.db.transactions.map TransactionRow.origin <+:
      db.transactions.map TransactionRow.origin := (prefix_of_insert inserts).1.map _
  have unseen : ∀ other : Transaction, Stored world.db other → transaction.id ≠ other.id := by
    intro other stored same
    exact fresh ((announces.id.trans same) ▸ stored.id_mem)
  refine ⟨announced.distinct, fun event member => (announced.stored event member).mono kept,
    ?_, ?_⟩
  · intro place pending emitsAt
    rw [emittingAt_set found] at emitsAt
    split at emitsAt
    next =>
      cases emits.symm.trans emitsAt
      refine ⟨?_, row, ?_, announces⟩
      · intro member
        obtain ⟨event, present, same⟩ := List.mem_map.mp member
        exact unseen event.item (announced.stored event present) same.symm
      · rw [rows]
        exact List.mem_append_right _ (List.mem_singleton.mpr rfl)
    next =>
      obtain ⟨unannounced, stored⟩ := announced.pending place pending emitsAt
      exact ⟨unannounced, stored.mono kept⟩
  · intro first second one two emitsFirst emitsSecond differ
    rw [emittingAt_set found] at emitsFirst emitsSecond
    split at emitsFirst
    next same =>
      cases emits.symm.trans emitsFirst
      rw [if_neg (same ▸ differ)] at emitsSecond
      exact unseen two (announced.pending second two emitsSecond).2
    next =>
      split at emitsSecond
      next =>
        cases emits.symm.trans emitsSecond
        exact (unseen one (announced.pending first one emitsFirst).2).symm
      next => exact announced.apart first second one two emitsFirst emitsSecond differ

/-- What a job was about to announce is announced. -/
theorem Announced.emit {index : ℕ} {job other : QueueJob} (announced : Announced world jobs)
    (found : jobs[index]? = some job) (emits : job.emitting = some transaction)
    (quiet : other.emitting = none) :
    Announced { world with events := world.events ++ [toResponse transaction] }
      (jobs.set index other) := by
  have emitsAt : emittingAt jobs index = some transaction := (emittingAt_of_get found).trans emits
  obtain ⟨unannounced, stored⟩ := announced.pending index transaction emitsAt
  have rest := announced.set_quiet found quiet
  have ids : announcedIds { world with events := world.events ++ [toResponse transaction] } =
      announcedIds world ++ [transaction.id] := by
    rw [announcedIds, List.map_append]
    rfl
  refine ⟨?_, ?_, ?_, rest.apart⟩
  · rw [ids]
    exact announced.distinct.append (List.nodup_singleton _)
      (List.disjoint_singleton.mpr unannounced)
  · intro event member
    rcases List.mem_append.mp member with earlier | last
    · exact announced.stored event earlier
    · rw [List.mem_singleton.mp last]
      exact stored
  · intro place pending emitsPlace
    obtain ⟨unannounced', stored'⟩ := rest.pending place pending emitsPlace
    refine ⟨?_, stored'⟩
    rw [ids, List.mem_append, List.mem_singleton]
    refine not_or.mpr ⟨unannounced', ?_⟩
    rw [emittingAt_set found] at emitsPlace
    split at emitsPlace
    next =>
      rw [quiet] at emitsPlace
      cases emitsPlace
    next differ =>
      exact announced.apart place index pending transaction emitsPlace emitsAt fun same =>
        differ same.symm

theorem announced_called {index : ℕ} {attempt : Attempt} {job : QueueJob} {pending : Pending}
    {activity : Activity} (announced : Announced world jobs) (sound : JobSound settings past job)
    (found : jobs[index]? = some job) (active : job.status = .active attempt (.calling pending))
    (calls : Called settings.server attempt world pending activity after) :
    Announced after (jobs.set index { job with status := .active attempt activity }) := by
  have sender := sound.sender attempt pending active
  cases calls with
  | looked receipt flag _ => exact announced.set_quiet found rfl
  | stored converts inserts reached =>
      rcases reached with rfl | rfl
      · exact announced.store found inserts rfl (announces_saved sound sender converts)
      · refine Announced.set_quiet ?_ found rfl
        exact announced.quiet ((prefix_of_insert inserts).1.map _) rfl fun _ _ emits => emits
  | emitted transaction reached =>
      have emits : job.emitting = some transaction := by
        rw [QueueJob.emitting, active]
      rcases reached with rfl | rfl
      · exact announced.emit found emits rfl
      · exact announced.emit found emits rfl
  | failed => exact announced.set_quiet found rfl

/-- Every step keeps the events of the stored rows. -/
theorem announced_of_moves (announced : Announced system.world system.jobs)
    (sound : Sound settings past system) (moves : Moves settings system event next) :
    Announced next.world next.jobs := by
  have rows := (extends_of_moves moves).rows
  cases moves with
  | queued queues =>
      exact announced.quiet rows rfl fun place _ => emittingAt_append rfl place
  | begun found waiting capacity => exact announced.set_quiet found (begin_emitting _ _ _)
  | called found active calls =>
      exact announced_called announced (sound.jobs _ (List.mem_of_getElem? found)) found active
        calls
  | settled found settles =>
      exact announced.set_quiet found (emitting_of_idle (settle_spec settles).2)
  | restarted =>
      refine announced.quiet rows rfl ?_
      intro place transaction emits
      obtain ⟨job, found, emits⟩ := Option.bind_eq_some_iff.mp emits
      obtain ⟨old, -, rfl⟩ := List.mem_map.mp (List.mem_of_getElem? found)
      rw [emitting_of_idle (stall_isActive _ old)] at emits
      cases emits
  | _ => exact announced.quiet rows rfl fun _ _ emits => emits

/-- So every run does. -/
theorem announced_run (ran : (application settings).run .initial past = some system) :
    Announced system.world system.jobs := by
  refine (EventMachine.run_history (fun past system =>
    (application settings).run .initial past = some system ∧
      Announced system.world system.jobs) ⟨rfl, ?_⟩ ?_ ran).2
  · have silent : ∀ index, emittingAt [] index = none := fun _ => rfl
    refine ⟨List.nodup_nil, fun _ member => absurd member List.not_mem_nil, ?_, ?_⟩
    · exact fun index _ emits => nomatch (silent index).symm.trans emits
    · exact fun first _ _ _ emits => nomatch (silent first).symm.trans emits
  · intro past system event next good step
    obtain ⟨ran, announced⟩ := good
    exact ⟨EventMachine.run_concat_eq_some.mpr ⟨system, ran, step⟩,
      announced_of_moves announced (sound_run ran) (moves_of_step (editsKnown_run ran) step)⟩

end Steps

/-- However jobs are retried and the process restarted, no two `transaction:new` events are of one
transaction, and each is of a row in the table, with the sender, the flag and the time that the
row keeps. -/
theorem run_events_distinct (settings : Settings) {events : List SystemEvent} {system : System}
    (ran : (application settings).run .initial events = some system) :
    (system.world.events.map fun event => event.item.id).Nodup ∧
      ∀ event ∈ system.world.events, ∃ row ∈ system.world.db.transactions,
        Announces event.item row :=
  ⟨(announced_run ran).distinct, (announced_run ran).stored⟩

theorem sampleRun_events_distinct : ∃ system,
    (application sampleSettings).run .initial sampleRun = some system ∧
      (system.world.events.map fun event => event.item.id).Nodup ∧
      ∀ event ∈ system.world.events, ∃ row ∈ system.world.db.transactions,
        Announces event.item row := by
  obtain ⟨system, ran, -⟩ := run_sampleRun
  exact ⟨system, ran, run_events_distinct sampleSettings ran⟩

end BirrTrack.Application
