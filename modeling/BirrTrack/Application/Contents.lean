import BirrTrack.Application.Histories

/-! # Where the values of a row come from

Nothing in the table is made up: every row was inserted with the values of a request's body or of
the receipt that an attempt at a queued photo read, and each of its columns holds the value it was
inserted with or one that a committed PATCH request gave for that very field.
-/

namespace BirrTrack.Application

open Processing Transactions Telegram

variable {settings : Settings} {past : List SystemEvent} {system next : System}
  {event : SystemEvent} {row : TransactionRow} {index : ℕ} {job other : QueueJob}

/-! ## Sources -/

/-- The job at the index was queued for this photo of this user. -/
def QueuedAs (settings : Settings) (past : List SystemEvent) (index : ℕ) (user : User)
    (photo : PhotoSize) : Prop :=
  ∃ front event before, front ++ [event] <+: past ∧
    (application settings).run .initial front = some before ∧ before.jobs.length = index ∧
    Queues settings event user photo

/-- A request or an attempt inserted the row. -/
inductive Inserted (settings : Settings) (past : List SystemEvent) : TransactionRow → Prop where
  | posted {generated : Generated} {dto : CreateTransactionDto} {row : TransactionRow}
      (request : .post generated dto ∈ past)
      (converts : (dto.toNew settings.server.reader).toRow settings.server.reader generated =
        some row) :
      Inserted settings past row
  | read {index : ℕ} {attempt : Attempt} {user : User} {photo : PhotoSize}
      {receipt : CreateTransactionDto} {isDuplicate : Bool} {row : TransactionRow}
      (queued : QueuedAs settings past index user photo) (begun : .begin index attempt ∈ past)
      (reads : receiptOf settings.server attempt (payloadOf user photo) = .ok (some receipt))
      (converts : ({ receipt with isDuplicate }.toNew settings.server.reader).toRow
        settings.server.reader attempt.generated = some row) :
      Inserted settings past row

/-- The edit that is open at an index, when it commits and writes. -/
def CommitsAt (settings : Settings) (past : List SystemEvent) (index : ℕ) (edit : OpenEdit) :
    Prop :=
  ∃ before after logs change, (application settings).run .initial past = some before ∧
    before.edits[index]? = some edit ∧
    (application settings).step before (.commit index) = some after ∧
    Writes settings.server.reader edit before.world.db after.world.db logs change

/-- A PATCH request that had read the row was committed and wrote, and its body gave the field the
value that the column holds. -/
def Patched (settings : Settings) (past : List SystemEvent) (row : TransactionRow)
    (field : EditableTransactionField) : Prop :=
  ∃ front index edit header, front ++ [.commit index] <+: past ∧
    CommitsAt settings front index edit ∧ edit.existing.id = row.id ∧
    .read row.id edit.dto header ∈ front ∧
    edit.dto.column settings.server.reader field = some (some (row.column field))

/-- Every column of the row has the value it was inserted with or one that a request gave. -/
structure Sourced (settings : Settings) (past : List SystemEvent) (inserted row : TransactionRow) :
    Prop where
  origin : row.origin = inserted.origin
  columns : ∀ field, row.column field = inserted.column field ∨ Patched settings past row field

theorem QueuedAs.append {user : User} {photo : PhotoSize}
    (queued : QueuedAs settings past index user photo) (event : SystemEvent) :
    QueuedAs settings (past ++ [event]) index user photo := by
  obtain ⟨front, first, before, isPrefix, rest⟩ := queued
  exact ⟨front, first, before, isPrefix.trans (List.prefix_append _ _), rest⟩

theorem Inserted.append (inserted : Inserted settings past row) (event : SystemEvent) :
    Inserted settings (past ++ [event]) row := by
  cases inserted with
  | posted request converts => exact .posted (List.mem_append_left _ request) converts
  | read queued begun reads converts =>
      exact .read (queued.append event) (List.mem_append_left _ begun) reads converts

theorem Patched.append {field : EditableTransactionField}
    (patched : Patched settings past row field) (event : SystemEvent) :
    Patched settings (past ++ [event]) row field := by
  obtain ⟨front, index, edit, header, isPrefix, rest⟩ := patched
  exact ⟨front, index, edit, header, isPrefix.trans (List.prefix_append _ _), rest⟩

/-- A version of the row with the same value in the column. -/
theorem Patched.of_column {field : EditableTransactionField} {later : TransactionRow}
    (patched : Patched settings past row field) (id : later.id = row.id)
    (same : later.column field = row.column field) : Patched settings past later field := by
  obtain ⟨front, index, edit, header, isPrefix, commits, its, read, given⟩ := patched
  exact ⟨front, index, edit, header, isPrefix, commits, its.trans id.symm, id ▸ read,
    same ▸ given⟩

theorem Sourced.append {inserted : TransactionRow} (sourced : Sourced settings past inserted row)
    (event : SystemEvent) : Sourced settings (past ++ [event]) inserted row :=
  ⟨sourced.origin, fun field => (sourced.columns field).imp_right (·.append event)⟩

/-- A row has its own values. -/
theorem Sourced.refl (settings : Settings) (past : List SystemEvent) (row : TransactionRow) :
    Sourced settings past row row := ⟨rfl, fun _ => Or.inl rfl⟩

/-! ## The invariant -/

/-- The receipt that a call looks up, inserts or announces was read by the attempt. -/
def Pending.ReadBy (server : Server) (attempt : Attempt) (data : ImageProcessingJobPayload) :
    Pending → Prop
  | findDuplicate receipt => receiptOf server attempt data = .ok (some receipt)
  | create dto => ∃ receipt isDuplicate, receiptOf server attempt data = .ok (some receipt) ∧
      dto = { receipt with isDuplicate }
  | emit transaction => ∃ receipt isDuplicate row,
      receiptOf server attempt data = .ok (some receipt) ∧
      transaction = ({ receipt with isDuplicate }.toNew server.reader).saved row

/-- What is known of the job at an index: its photo, and of a call that its attempt began. -/
structure JobTraced (settings : Settings) (past : List SystemEvent) (index : ℕ) (job : QueueJob) :
    Prop where
  queued : ∃ user photo, QueuedAs settings past index user photo ∧ job.data = payloadOf user photo
  calling : ∀ attempt pending, job.status = .active attempt (.calling pending) →
    .begin index attempt ∈ past ∧ pending.ReadBy settings.server attempt job.data

structure Traced (settings : Settings) (past : List SystemEvent) (system : System) : Prop where
  rows : ∀ row ∈ system.world.db.transactions,
    ∃ inserted, Inserted settings past inserted ∧ Sourced settings past inserted row
  jobs : ∀ index job, system.jobs[index]? = some job → JobTraced settings past index job
  edits : ∀ edit ∈ system.edits, ∃ header, .read edit.existing.id edit.dto header ∈ past

theorem JobTraced.append (traced : JobTraced settings past index job) (event : SystemEvent) :
    JobTraced settings (past ++ [event]) index job := by
  obtain ⟨user, photo, queued, data⟩ := traced.queued
  refine ⟨⟨user, photo, queued.append event, data⟩, ?_⟩
  intro attempt pending active
  obtain ⟨begun, reads⟩ := traced.calling attempt pending active
  exact ⟨List.mem_append_left _ begun, reads⟩

theorem Traced.append (traced : Traced settings past system) (event : SystemEvent) :
    Traced settings (past ++ [event]) system where
  rows row member := by
    obtain ⟨inserted, source, sourced⟩ := traced.rows row member
    exact ⟨inserted, source.append event, sourced.append event⟩
  jobs index job found := (traced.jobs index job found).append event
  edits edit member := by
    obtain ⟨header, read⟩ := traced.edits edit member
    exact ⟨header, List.mem_append_left _ read⟩

/-- A job without an attempt has no call to trace. -/
theorem JobTraced.idle (traced : JobTraced settings past index job) (same : other.data = job.data)
    (idle : other.status.isActive = false) : JobTraced settings past index other := by
  refine ⟨same ▸ traced.queued, ?_⟩
  intro attempt pending active
  rw [active] at idle
  cases idle

/-- One job of the list is replaced. -/
theorem traced_set {jobs : List QueueJob} {place : ℕ}
    (traced : ∀ index job, jobs[index]? = some job → JobTraced settings past index job)
    (new : JobTraced settings past place other) :
    ∀ index job, (jobs.set place other)[index]? = some job → JobTraced settings past index job := by
  intro index job found
  by_cases here : place = index
  · subst here
    obtain ⟨inside, rfl⟩ := List.getElem?_eq_some_iff.mp found
    rw [List.getElem_set_self]
    exact new
  · rw [List.getElem?_set_ne here] at found
    exact traced index job found

/-! ## What a step keeps -/

/-- An attempt that has begun looks up the receipt that it read. -/
theorem readBy_begin {server : Server} {attempt : Attempt} :
    ∀ later pending, (job.begin server attempt).status = .active later (.calling pending) →
      later = attempt ∧ pending.ReadBy server attempt job.data := by
  intro later pending active
  obtain ⟨rfl, calls⟩ := JobStatus.active.inj active
  split at calls
  next => cases calls
  next => cases calls
  next receipt reads =>
    cases calls
    exact ⟨rfl, reads⟩

/-- The next call is about the receipt of the call before. -/
theorem readBy_called {server : Server} {attempt : Attempt} {data : ImageProcessingJobPayload}
    {world after : World} {pending later : Pending}
    (reads : pending.ReadBy server attempt data)
    (calls : Called server attempt world pending (.calling later) after) :
    later.ReadBy server attempt data := by
  cases calls with
  | looked receipt isDuplicate _ => exact ⟨receipt, isDuplicate, reads, rfl⟩
  | stored converts inserts reached =>
      rcases reached with emits | threw
      · cases emits
        obtain ⟨receipt, isDuplicate, read, rfl⟩ := reads
        exact ⟨receipt, isDuplicate, _, read, rfl⟩
      · cases threw
  | emitted transaction reached => rcases reached with returned | threw <;> contradiction

/-- A call inserts what its attempt has read. -/
theorem rows_of_called {attempt : Attempt} {world after : World} {pending : Pending}
    {activity : Activity} (traced : JobTraced settings past index job)
    (active : job.status = .active attempt (.calling pending))
    (calls : Called settings.server attempt world pending activity after) :
    ∀ row ∈ after.db.transactions, row ∈ world.db.transactions ∨ Inserted settings past row := by
  intro row member
  cases calls with
  | stored converts inserts =>
      rw [(Db.insert_eq_some.mp inserts).2.1] at member
      rcases List.mem_append.mp member with earlier | last
      · exact Or.inl earlier
      · rw [List.mem_singleton] at last
        subst last
        obtain ⟨begun, receipt, isDuplicate, reads, rfl⟩ := traced.calling _ _ active
        obtain ⟨user, photo, queued, data⟩ := traced.queued
        rw [data] at reads
        exact Or.inr (.read queued begun reads converts)
  | _ => exact Or.inl member

/-- A commit sets columns to what its request gave. -/
theorem sourced_of_commit {edit : OpenEdit} {header : Option String} {change : RowChange}
    {inserted : TransactionRow} (sourced : Sourced settings past inserted row)
    (commits : CommitsAt settings past index edit) (id : row.id = edit.existing.id)
    (read : .read edit.existing.id edit.dto header ∈ past)
    (sets : SetBy settings.server.reader edit.dto change) :
    Sourced settings (past ++ [.commit index]) inserted (row.set change) := by
  refine ⟨sourced.origin, ?_⟩
  intro field
  rcases sets.column_set row field with kept | given
  · rcases sourced.columns field with same | patched
    · exact Or.inl (kept.trans same)
    · exact Or.inr ((patched.append _).of_column rfl kept)
  · rw [← id] at read
    exact Or.inr ⟨past, index, edit, header, List.prefix_refl _, commits, id.symm, read, given⟩

theorem traced_of_moves (traced : Traced settings past system)
    (reached : (application settings).run .initial past = some system)
    (step : (application settings).step system event = some next)
    (moves : Moves settings system event next) : Traced settings (past ++ [event]) next := by
  have kept := traced.append event
  have happened : event ∈ past ++ [event] :=
    List.mem_append_right _ (List.mem_singleton.mpr rfl)
  cases moves with
  | replied longer => exact { kept with }
  | @queued _ user photo queues =>
      refine { kept with jobs := ?_ }
      intro index job found
      rw [List.getElem?_append] at found
      split at found
      next => exact kept.jobs index job found
      next beyond =>
        obtain ⟨inside, rfl⟩ := List.getElem?_eq_some_iff.mp found
        have here : system.jobs.length = index := by
          rw [List.length_singleton] at inside
          omega
        have queued : QueuedAs settings (past ++ [event]) index user photo :=
          ⟨past, event, system, List.prefix_refl _, reached, here, queues⟩
        rw [List.getElem_singleton]
        exact ⟨⟨user, photo, queued, rfl⟩, fun _ _ active => by cases active⟩
  | @begun index attempt job found waiting capacity =>
      have old := kept.jobs index job found
      refine { kept with jobs := traced_set kept.jobs ⟨old.queued, ?_⟩ }
      intro later pending active
      obtain ⟨rfl, reads⟩ := readBy_begin later pending active
      exact ⟨happened, reads⟩
  | @called index attempt job pending activity world found active calls =>
      have old := kept.jobs index job found
      refine { kept with rows := ?_, jobs := traced_set kept.jobs ⟨old.queued, ?_⟩ }
      · intro row member
        rcases rows_of_called old active calls row member with earlier | new
        · exact kept.rows row earlier
        · exact ⟨row, new, .refl settings _ row⟩
      · intro later pending' calling
        obtain ⟨begun, reads⟩ := old.calling _ _ active
        obtain ⟨rfl, rfl⟩ := JobStatus.active.inj calling
        exact ⟨begun, readBy_called reads calls⟩
  | settled found settles =>
      have old := kept.jobs _ _ found
      exact { kept with
        jobs := traced_set kept.jobs (old.idle (settle_spec settles).1 (settle_spec settles).2) }
  | restarted =>
      refine { kept with jobs := ?_, edits := fun _ member => absurd member List.not_mem_nil }
      intro index job found
      simp only [System.restart, List.getElem?_map, Option.map_eq_some_iff] at found
      obtain ⟨old, present, rfl⟩ := found
      exact (kept.jobs index old present).idle (stall_data _ old) (stall_isActive _ old)
  | @posted generated dto stored db converts inserts =>
      refine { kept with rows := ?_ }
      intro row member
      rw [(Db.insert_eq_some.mp inserts).2.1] at member
      rcases List.mem_append.mp member with earlier | last
      · exact kept.rows row earlier
      · rw [List.mem_singleton] at last
        subst last
        exact ⟨_, .posted happened converts, .refl settings _ _⟩
  | unposted => exact kept
  | @opened id dto header row found =>
      obtain ⟨-, rfl⟩ := Db.find_eq_some.mp found
      refine { kept with edits := ?_ }
      intro edit member
      rcases List.mem_append.mp member with earlier | last
      · exact kept.edits edit earlier
      · rw [List.mem_singleton] at last
        subst last
        exact ⟨header, happened⟩
  | unread => exact kept
  | @committed index edit db logs change found writes =>
      refine { kept with
        rows := ?_
        edits := fun edit member => kept.edits edit (List.mem_of_mem_eraseIdx member) }
      intro row member
      rw [writes.rows, Db.updateRows, List.mem_map] at member
      obtain ⟨earlier, present, same⟩ := member
      obtain ⟨inserted, source, sourced⟩ := traced.rows earlier present
      obtain ⟨header, read⟩ := traced.edits edit (List.mem_of_getElem? found)
      refine ⟨inserted, source.append _, ?_⟩
      split at same
      next id =>
        subst same
        exact sourced_of_commit sourced ⟨system, _, logs, change, reached, found, step, writes⟩ id
          read (changeOf_eq_some.mp writes.sets)
      next =>
        subst same
        exact sourced.append _
  | uncommitted found =>
      exact { kept with
        edits := fun edit member => kept.edits edit (List.mem_of_mem_eraseIdx member) }

/-- Every reachable system is traced. -/
theorem traced_run (reached : (application settings).run .initial past = some system) :
    Traced settings past system := by
  refine (EventMachine.run_history (fun past system =>
    (application settings).run .initial past = some system ∧ EditsKnown system ∧
      Traced settings past system) ⟨rfl, editsKnown_initial, ?_⟩ ?_ reached).2.2
  · refine ⟨fun _ member => absurd member List.not_mem_nil, ?_,
      fun _ member => absurd member List.not_mem_nil⟩
    intro index job found
    cases found
  · intro past system event next good step
    obtain ⟨ran, known, traced⟩ := good
    exact ⟨EventMachine.run_concat_eq_some.mpr ⟨system, ran, step⟩, editsKnown_step known step,
      traced_of_moves traced ran step (moves_of_step known step)⟩

/-- Every row was inserted by a request or with the receipt that an attempt at a queued photo read,
and each of its columns holds the value it was inserted with or one that a PATCH request gave for
this field of this row. -/
theorem run_contents (settings : Settings) {events : List SystemEvent} {system : System}
    (ran : (application settings).run .initial events = some system) :
    ∀ row ∈ system.world.db.transactions,
      ∃ inserted, Inserted settings events inserted ∧ Sourced settings events inserted row :=
  (traced_run ran).rows

/-- The rows of the sample run were read off the photo, and the bank of one is from the request. -/
theorem sampleRun_contents : ∃ system,
    (application sampleSettings).run .initial sampleRun = some system ∧
      ∀ row ∈ system.world.db.transactions, ∃ inserted,
        Inserted sampleSettings sampleRun inserted ∧
          Sourced sampleSettings sampleRun inserted row := by
  obtain ⟨system, ran, -⟩ := run_sampleRun
  exact ⟨system, ran, run_contents sampleSettings ran⟩

end BirrTrack.Application
