import BirrTrack.Application.Histories

/-! # Originals

Jobs may overlook each other, so that a receipt has two rows without the flag. The other way round
nothing goes wrong: a flagged row has an earlier row with its key, and every key has a row without
the flag, however lookups, inserts, retries and restarts interleave.
-/

namespace BirrTrack.Application

open Processing Transactions Telegram

/-! ## Flags in a list -/

section Marks

variable {κ : Type} {marks : List (κ × Bool)} {key : κ} {flag : Bool}

/-- A flagged key stands in the list before. -/
def FlagsEarlier (marks : List (κ × Bool)) : Prop :=
  ∀ front key back, marks = front ++ (key, true) :: back → ∃ flag, (key, flag) ∈ front

theorem flagsEarlier_nil : FlagsEarlier ([] : List (κ × Bool)) := by
  intro front key back split
  cases front <;> cases split

theorem FlagsEarlier.concat (earlier : FlagsEarlier marks)
    (present : flag = true → ∃ other, (key, other) ∈ marks) :
    FlagsEarlier (marks ++ [(key, flag)]) := by
  intro front flagged back split
  rcases List.eq_nil_or_concat back with rfl | ⟨shorter, last, rfl⟩
  · obtain ⟨rfl, same⟩ := List.append_inj' split rfl
    cases same
    exact present rfl
  · have split' : marks ++ [(key, flag)] = (front ++ (flagged, true) :: shorter) ++ [last] := by
      rw [split, List.append_assoc, List.cons_append, List.concat_eq_append]
    obtain ⟨whole, -⟩ := List.append_inj' split' rfl
    exact earlier front flagged shorter whole

theorem FlagsEarlier.of_concat (earlier : FlagsEarlier (marks ++ [(key, flag)])) :
    FlagsEarlier marks ∧ (flag = true → ∃ other, (key, other) ∈ marks) := by
  refine ⟨?_, ?_⟩
  · intro front flagged back split
    exact earlier front flagged (back ++ [(key, flag)]) (by rw [split]; simp)
  · rintro rfl
    exact earlier marks key [] rfl

/-- Every key stands in the list without the flag. -/
theorem FlagsEarlier.original (earlier : FlagsEarlier marks) (member : (key, flag) ∈ marks) :
    (key, false) ∈ marks := by
  induction marks using List.reverseRecOn generalizing key flag with
  | nil => exact absurd member List.not_mem_nil
  | append_singleton marks last ih =>
      obtain ⟨others, present⟩ := earlier.of_concat
      rcases List.mem_append.mp member with before | its
      · exact List.mem_append_left _ (ih others before)
      · rw [List.mem_singleton] at its
        subst its
        cases flag with
        | false => exact List.mem_append_right _ (List.mem_singleton_self _)
        | true =>
            obtain ⟨other, before⟩ := present rfl
            exact List.mem_append_left _ (ih others before)

end Marks

/-- The key of a row and its flag. -/
def mark (row : TransactionRow) : TransactionKey × Bool := (row.key, row.isDuplicate)

/-! ## Steps -/

/-- A request neither changes the key of a row nor posts a flag. -/
def SystemEvent.KeepsKeys : SystemEvent → Prop
  | .post _ dto => dto.isDuplicate = false
  | .read _ dto _ =>
      dto.amount = .undefined ∧ dto.transactionId = .undefined ∧ dto.timestamp = .undefined
  | _ => True

/-- What a job is about to insert is flagged only if the table has its key. -/
def Founded (settings : Settings) (system : System) (job : QueueJob) : Prop :=
  ∀ attempt receipt, job.status = .active attempt (.calling (.create receipt)) →
    receipt.isDuplicate = true → ∀ key, receipt.key settings.server.reader = some key →
      ∃ row ∈ system.world.db.transactions, row.key = key

/-- Flags point back, those that are in the table and those that jobs hold. -/
structure PointsBack (settings : Settings) (system : System) : Prop where
  rows : FlagsEarlier (system.world.db.transactions.map mark)
  jobs : ∀ job ∈ system.jobs, Founded settings system job
  edits : ∀ edit ∈ system.edits, edit.dto.amount = .undefined ∧
    edit.dto.transactionId = .undefined ∧ edit.dto.timestamp = .undefined

section Steps

variable {settings : Settings} {system next : System} {event : SystemEvent}

theorem mem_marks {rows : List TransactionRow} {key : TransactionKey} :
    (∃ flag, (key, flag) ∈ rows.map mark) ↔ ∃ row ∈ rows, row.key = key := by
  refine ⟨?_, ?_⟩
  · rintro ⟨flag, member⟩
    obtain ⟨row, present, same⟩ := List.mem_map.mp member
    exact ⟨row, present, congrArg Prod.fst same⟩
  · rintro ⟨row, present, rfl⟩
    exact ⟨row.isDuplicate, List.mem_map.mpr ⟨row, present, rfl⟩⟩

/-- A job that is not about to insert holds no flag. -/
theorem founded_of_status {job : QueueJob}
    (status : ∀ attempt receipt, job.status ≠ .active attempt (.calling (.create receipt))) :
    Founded settings system job :=
  fun attempt receipt active => absurd active (status attempt receipt)

/-- Keys stay in the table. -/
theorem Founded.mono {job : QueueJob} (founded : Founded settings system job)
    (kept : ∀ key, (∃ row ∈ system.world.db.transactions, row.key = key) →
      ∃ row ∈ next.world.db.transactions, row.key = key) : Founded settings next job :=
  fun attempt receipt active flagged key known =>
    kept key (founded attempt receipt active flagged key known)

/-- Replacing a job by a founded one. -/
theorem founded_set {jobs : List QueueJob} {index : ℕ} {other : QueueJob}
    (founded : ∀ job ∈ jobs, Founded settings system job)
    (foundedOther : Founded settings system other) :
    ∀ job ∈ jobs.set index other, Founded settings system job := by
  intro job member
  rcases List.mem_or_eq_of_mem_set member with earlier | rfl
  · exact founded job earlier
  · exact foundedOther

/-- A new row that is flagged only if the table has its key. -/
theorem flagsEarlier_insert {db after : Db} {row : TransactionRow}
    (earlier : FlagsEarlier (db.transactions.map mark)) (inserts : db.insert row = some after)
    (found : row.isDuplicate = true → ∃ other ∈ db.transactions, other.key = row.key) :
    FlagsEarlier (after.transactions.map mark) ∧
      ∀ key, (∃ other ∈ db.transactions, other.key = key) →
        ∃ other ∈ after.transactions, other.key = key := by
  obtain ⟨-, rows, -⟩ := Db.insert_eq_some.mp inserts
  rw [rows]
  refine ⟨?_, ?_⟩
  · rw [List.map_append, List.map_singleton]
    exact earlier.concat fun flagged => mem_marks.mpr (found flagged)
  · rintro key ⟨other, member, same⟩
    exact ⟨other, List.mem_append_left _ member, same⟩

/-- An edit of other columns keeps the keys and the flags. -/
theorem map_mark_updateRows {reader : Js.DateReader} {dto : UpdateTransactionDto}
    {change : RowChange} (sets : SetBy reader dto change)
    (keeps : dto.amount = .undefined ∧ dto.transactionId = .undefined ∧
      dto.timestamp = .undefined) (rows : List TransactionRow) (id : String) :
    (Db.updateRows rows id change).map mark = rows.map mark := by
  obtain ⟨amount, number, instant⟩ := keeps
  have amountKept := sets.amount
  have numberKept := sets.transactionId
  have instantKept := sets.timestamp
  rw [amount] at amountKept
  rw [number] at numberKept
  rw [instant] at instantKept
  have same : ∀ row : TransactionRow, mark (row.set change) = mark row := by
    intro row
    simp only [mark, TransactionRow.key, TransactionRow.set,
      ← Option.some.inj amountKept, ← Option.some.inj numberKept, ← Option.some.inj instantKept,
      Option.getD_none]
  rw [Db.updateRows, List.map_map]
  refine List.map_congr_left fun row _ => ?_
  simp only [Function.comp_apply]
  split
  · exact same row
  · rfl

/-- A job without an attempt is about to insert nothing. -/
theorem founded_of_inactive {job : QueueJob} (inactive : job.status.isActive = false) :
    Founded settings system job := by
  refine founded_of_status ?_
  intro attempt receipt active
  rw [active] at inactive
  cases inactive

/-- An attempt begins with a lookup, if it calls anything. -/
theorem founded_begin (job : QueueJob) (attempt : Attempt) :
    Founded settings system (job.begin settings.server attempt) := by
  refine founded_of_status ?_
  intro other receipt active
  have activity := (JobStatus.active.inj active).2
  split at activity
  next => cases activity
  next => cases activity
  next => cases activity

/-- A call inserts a flag only with what a lookup has found. -/
theorem pointsBack_of_called {index : ℕ} {attempt : Attempt} {job : QueueJob} {pending : Pending}
    {activity : Activity} {world : World} (points : PointsBack settings system)
    (found : system.jobs[index]? = some job)
    (active : job.status = .active attempt (.calling pending))
    (calls : Called settings.server attempt system.world pending activity world) :
    PointsBack settings { system with
      world := world
      jobs := system.jobs.set index { job with status := .active attempt activity } } := by
  obtain ⟨rows, jobs, edits⟩ := points
  cases calls with
  | looked receipt flag founds =>
      refine ⟨rows, founded_set jobs ?_, edits⟩
      intro other created calling flagged key known
      cases calling
      exact founds flagged key known
  | stored converts inserts reached =>
      obtain ⟨⟨-, -, flag, -⟩, -⟩ := toRow_eq_some.mp converts
      obtain ⟨marks, kept⟩ := flagsEarlier_insert rows inserts fun flagged => by
        obtain ⟨other, member, same⟩ := jobs job (List.mem_of_getElem? found) _ _ active
          (flag.symm.trans flagged) _ (key_of_toRow converts)
        exact ⟨other, member, same.trans (keyWith_eq_key_of_found converts same)⟩
      refine ⟨marks, founded_set (fun other member => (jobs other member).mono kept) ?_, edits⟩
      refine founded_of_status ?_
      intro other receipt calling
      have now := (JobStatus.active.inj calling).2
      rcases reached with emits | threw
      · rw [emits] at now
        cases now
      · rw [threw] at now
        cases now
  | emitted transaction reached =>
      refine ⟨rows, founded_set jobs (founded_of_status ?_), edits⟩
      intro other receipt calling
      have now := (JobStatus.active.inj calling).2
      rcases reached with returned | threw
      · rw [returned] at now
        cases now
      · rw [threw] at now
        cases now
  | failed =>
      refine ⟨rows, founded_set jobs (founded_of_status ?_), edits⟩
      intro other receipt calling
      cases (JobStatus.active.inj calling).2

theorem pointsBack_of_moves (keeps : event.KeepsKeys) (points : PointsBack settings system)
    (moves : Moves settings system event next) : PointsBack settings next := by
  obtain ⟨rows, jobs, edits⟩ := points
  cases moves with
  | replied longer => exact ⟨rows, jobs, edits⟩
  | queued queues =>
      refine ⟨rows, ?_, edits⟩
      intro job member
      rcases List.mem_append.mp member with earlier | last
      · exact jobs job earlier
      · rw [List.mem_singleton.mp last]
        exact founded_of_inactive rfl
  | begun found waiting capacity => exact ⟨rows, founded_set jobs (founded_begin _ _), edits⟩
  | called found active calls => exact pointsBack_of_called ⟨rows, jobs, edits⟩ found active calls
  | settled found settles =>
      exact ⟨rows, founded_set jobs (founded_of_inactive (settle_spec settles).2), edits⟩
  | restarted =>
      refine ⟨rows, ?_, fun edit member => absurd member List.not_mem_nil⟩
      intro job member
      obtain ⟨other, -, rfl⟩ := List.mem_map.mp member
      exact founded_of_inactive (stall_isActive _ other)
  | posted converts inserts =>
      obtain ⟨⟨-, -, flag, -⟩, -⟩ := toRow_eq_some.mp converts
      obtain ⟨marks, kept⟩ := flagsEarlier_insert rows inserts fun flagged => by
        rw [flag] at flagged
        exact absurd (keeps.symm.trans flagged) Bool.false_ne_true
      exact ⟨marks, fun other member => (jobs other member).mono kept, edits⟩
  | unposted => exact ⟨rows, jobs, edits⟩
  | opened found =>
      refine ⟨rows, jobs, ?_⟩
      intro edit member
      rcases List.mem_append.mp member with earlier | last
      · exact edits edit earlier
      · rw [List.mem_singleton.mp last]
        exact keeps
  | unread => exact ⟨rows, jobs, edits⟩
  | @committed index edit db logs change found writes =>
      have same : db.transactions.map mark = system.world.db.transactions.map mark := by
        rw [writes.rows]
        exact map_mark_updateRows (changeOf_eq_some.mp writes.sets)
          (edits edit (List.mem_of_getElem? found)) _ _
      have kept : ∀ key, (∃ row ∈ system.world.db.transactions, row.key = key) →
          ∃ row ∈ db.transactions, row.key = key := by
        intro key present
        rw [← mem_marks, same, mem_marks]
        exact present
      refine ⟨?_, fun job member => (jobs job member).mono kept,
        fun edit member => edits edit (List.mem_of_mem_eraseIdx member)⟩
      rw [same]
      exact rows
  | uncommitted found =>
      exact ⟨rows, jobs, fun edit member => edits edit (List.mem_of_mem_eraseIdx member)⟩

end Steps

/-- As long as no request changes a key or posts a flag, a flagged row has an earlier row with its
key, and every key of the table is the key of a row without the flag, in every run of the
application. -/
theorem run_originals (settings : Settings) {events : List SystemEvent} {system : System}
    (keeps : ∀ event ∈ events, event.KeepsKeys)
    (ran : (application settings).run .initial events = some system) :
    (∀ front row back, system.world.db.transactions = front ++ row :: back →
        row.isDuplicate = true → ∃ earlier ∈ front, earlier.key = row.key) ∧
      ∀ row ∈ system.world.db.transactions, ∃ original ∈ system.world.db.transactions,
        original.key = row.key ∧ original.isDuplicate = false := by
  have points : PointsBack settings system := by
    refine (EventMachine.run_history (fun past system => EditsKnown system ∧
      ((∀ event ∈ past, event.KeepsKeys) → PointsBack settings system)) ?_ ?_ ran).2 keeps
    · exact ⟨editsKnown_initial, fun _ => ⟨flagsEarlier_nil,
        fun _ member => absurd member List.not_mem_nil,
        fun _ member => absurd member List.not_mem_nil⟩⟩
    · intro past system event next good step
      obtain ⟨known, points⟩ := good
      refine ⟨editsKnown_step known step, ?_⟩
      intro keeps
      obtain ⟨earlier, last⟩ := List.forall_mem_append.mp keeps
      exact pointsBack_of_moves (last event (List.mem_singleton_self _)) (points earlier)
        (moves_of_step known step)
  refine ⟨?_, ?_⟩
  · intro front row back split flagged
    have marked : mark row = (row.key, true) := by rw [mark, flagged]
    refine mem_marks.mp (points.rows (front.map mark) row.key (back.map mark) ?_)
    rw [split, List.map_append, List.map_cons, marked]
  · intro row member
    obtain ⟨original, present, same⟩ :=
      List.mem_map.mp (points.rows.original (List.mem_map.mpr ⟨row, member, rfl⟩))
    exact ⟨original, present, congrArg Prod.fst same, congrArg Prod.snd same⟩

/-- The second row of the sample run is flagged, as the lost reply left the first one behind. -/
theorem sampleRun_originals : ∃ system,
    (application sampleSettings).run .initial sampleRun = some system ∧
      (∀ front row back, system.world.db.transactions = front ++ row :: back →
        row.isDuplicate = true → ∃ earlier ∈ front, earlier.key = row.key) ∧
      ∀ row ∈ system.world.db.transactions, ∃ original ∈ system.world.db.transactions,
        original.key = row.key ∧ original.isDuplicate = false := by
  obtain ⟨system, ran, -⟩ := run_sampleRun
  have keeps : ∀ event ∈ sampleRun, event.KeepsKeys := by
    simp only [sampleRun, List.forall_mem_cons, SystemEvent.KeepsKeys, true_and]
    exact ⟨⟨rfl, rfl, rfl⟩, fun _ member => absurd member List.not_mem_nil⟩
  exact ⟨system, ran, run_originals sampleSettings keeps ran⟩

end BirrTrack.Application
