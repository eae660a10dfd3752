import BirrTrack.Application.Histories
import BirrTrack.Transactions.ConcurrentEdits
import BirrTrack.Transactions.Validation

/-! # The audit trail of the application

Edits of many rows interleave with jobs, requests and restarts. The edit log tells the history of
every row exactly as long as no PATCH request commits on top of a change that it has not seen, or
gives a value that is stored as another one.
-/

namespace BirrTrack.Application

open Js Database Processing Transactions Telegram

/-! ## Requests past the validation -/

/-- The body of a PATCH request has passed the validation. -/
def SystemEvent.Validated (isDateString : String → Prop) : SystemEvent → Prop
  | .read _ dto _ => dto.Valid isDateString
  | _ => True

/-- The application behind its validation pipe. -/
def validatedApplication (settings : Settings) (isDateString : String → Prop) :
    EventMachine System {event : SystemEvent // event.Validated isDateString} :=
  (application settings).comap Subtype.val

/-- The open edits have read a version of a row in the table, and their bodies are valid. -/
structure EditsRead (isDateString : String → Prop) (system : System) : Prop where
  known : EditsKnown system
  valid : ∀ edit ∈ system.edits, edit.dto.Valid isDateString
  snapshots : ∀ edit ∈ system.edits, ∃ row : TransactionRow, edit.existing = row.toEntity

/-! ## What the log tells -/

/-- Each field's log rows of each row follow one another up to the value that the row holds. -/
def Trailed (reader : DateReader) (db : Db) : Prop :=
  ∀ row ∈ db.transactions, Chained reader row.id 0 db

/-- Every log row that is written has the value that its field held before, and every field of a
row that changes has a log row. -/
def LogsChanges (reader : DateReader) (before after : Db) : Prop :=
  ∃ written, after.editLogs = before.editLogs ++ written ∧
    (∀ log ∈ written, ∃ row, before.find log.transactionId = some row ∧
      Denotes reader log.fieldName (log.oldValue.map Text.value) (row.meaning log.fieldName)) ∧
    ∀ row ∈ before.transactions, ∀ later ∈ after.transactions, later.id = row.id →
      ∀ field, row.stored field ≠ later.stored field →
        ∃ log ∈ written, log.transactionId = row.id ∧ log.fieldName = field

/-- A request whose edit goes through commits on current values. -/
def CommitsSeen (reader : DateReader) (system : System) : SystemEvent → Prop
  | .commit index => ∀ edit row, system.edits[index]? = some edit →
      system.world.db.find edit.existing.id = some row →
      Edit.GoesThrough reader ⟨edit.dto, edit.editedBy⟩ edit.existing →
        OnCurrent reader edit.dto edit.existing row
  | _ => True

variable {settings : Settings} {isDateString : String → Prop} {reader : DateReader}
  {system next : System} {db after : Db} {row : TransactionRow}

/-! ## Steps that log nothing -/

/-- A row that no log row is of is trailed. -/
theorem chained_of_unlogged (member : row ∈ db.transactions)
    (unlogged : ∀ log ∈ db.editLogs, log.transactionId ≠ row.id) :
    Chained reader row.id 0 db := by
  have none : ∀ field, fieldLogs db 0 row.id field = [] := by
    intro field
    refine List.filter_eq_nil_iff.mpr ?_
    intro log logged matched
    exact unlogged log (List.mem_of_mem_drop logged) (of_decide_eq_true matched).1
  refine ⟨row, Db.find_eq_some.mpr ⟨member, rfl⟩, ?_⟩
  intro field
  rw [none]
  exact ⟨List.isChain_nil, fun last empty => absurd empty (by simp)⟩

/-- New rows leave the trails as they are. -/
theorem trailed_of_grown (trailed : Trailed reader db) (logs : after.editLogs = db.editLogs)
    (grown : db.transactions <+: after.transactions) : Trailed reader after := by
  obtain ⟨added, rows⟩ := grown
  intro row member
  rw [← rows] at member
  rcases List.mem_append.mp member with earlier | new
  · obtain ⟨current, found, chains⟩ := trailed row earlier
    obtain ⟨present, sameId⟩ := Db.find_eq_some.mp found
    have kept : after.find row.id = some current :=
      Db.find_eq_some.mpr ⟨rows ▸ List.mem_append_left _ present, sameId⟩
    refine ⟨current, kept, ?_⟩
    intro field
    rw [fieldLogs, logs]
    exact chains field
  · refine chained_of_unlogged (rows ▸ List.mem_append_right _ new) ?_
    intro log logged sameId
    rw [logs] at logged
    have distinct := after.primaryKey
    rw [← rows, List.map_append, List.nodup_append] at distinct
    exact distinct.2.2 _ (db.foreignKey log logged) _ (List.mem_map_of_mem new) sameId

theorem logsChanges_of_grown (logs : after.editLogs = db.editLogs)
    (grown : db.transactions <+: after.transactions) : LogsChanges reader db after := by
  refine ⟨[], ?_, fun log member => absurd member List.not_mem_nil, ?_⟩
  · rw [logs, List.append_nil]
  · intro row member later present sameId field differs
    have same := List.inj_on_of_nodup_map after.primaryKey present (grown.subset member) sameId
    rw [same] at differs
    exact absurd rfl differs

/-! ## A commit -/

section Commit

variable {edit : OpenEdit} {snapshot : TransactionRow} {logs : List EditLog} {change : RowChange}

/-- The log rows of a commit are of the row that it has read. -/
theorem transactionId_of_writes (writes : Writes reader edit db after logs change) :
    ∀ log ∈ logs, log.transactionId = edit.existing.id :=
  fun log member => ((logRows_spec writes.logged).2 log member).1

/-- The trail of another row is left as it is. -/
theorem chained_of_other (writes : Writes reader edit db after logs change)
    (other : row.id ≠ edit.existing.id) (chained : Chained reader row.id 0 db) :
    Chained reader row.id 0 after := by
  obtain ⟨current, found, chains⟩ := chained
  obtain ⟨present, sameId⟩ := Db.find_eq_some.mp found
  have kept : after.find row.id = some current := by
    refine Db.find_eq_some.mpr ⟨?_, sameId⟩
    rw [writes.rows]
    exact List.mem_map.mpr ⟨current, present, if_neg fun same => other (sameId.symm.trans same)⟩
  refine ⟨current, kept, ?_⟩
  intro field
  have none : (logs.filter fun log => log.transactionId = row.id ∧ log.fieldName = field) = [] := by
    refine List.filter_eq_nil_iff.mpr ?_
    intro log member matched
    rw [transactionId_of_writes writes log member, decide_eq_true_eq] at matched
    exact other matched.1.symm
  rw [fieldLogs, writes.appended, List.drop_zero, List.filter_append, none, List.append_nil]
  exact chains field

/-- What a commit does to the log of its row, it does to the log. -/
theorem logsChanges_iff (writes : Writes reader edit db after logs change)
    (found : db.find edit.existing.id = some row) :
    LogsChanges reader db after ↔ AuditedStep reader edit.existing.id db after := by
  have ids := transactionId_of_writes writes
  have foundNew := find_of_updateRows found writes.rows
  obtain ⟨member, sameId⟩ := Db.find_eq_some.mp found
  refine ⟨?_, ?_⟩
  · rintro ⟨written, appended, truthful, complete⟩
    cases List.append_cancel_left (writes.appended.symm.trans appended)
    refine ⟨row, row.set change, logs, found, foundNew, writes.appended, ?_, ?_⟩
    · intro log logged
      obtain ⟨old, foundOld, denotes⟩ := truthful log logged
      rw [ids log logged, found] at foundOld
      cases foundOld
      exact ⟨ids log logged, denotes⟩
    · intro field differs
      obtain ⟨log, logged, -, name⟩ := complete row member (row.set change)
        (Db.find_eq_some.mp foundNew).1 rfl field differs
      exact ⟨log, logged, name⟩
  · rintro ⟨old, new, written, foundOld, foundNew', appended, truthful, complete⟩
    cases found.symm.trans foundOld
    cases foundNew.symm.trans foundNew'
    cases List.append_cancel_left (writes.appended.symm.trans appended)
    refine ⟨logs, writes.appended, ?_, ?_⟩
    · intro log logged
      exact ⟨row, (ids log logged).symm ▸ found, (truthful log logged).2⟩
    · intro current present later presentLater laterId field differs
      by_cases same : current.id = edit.existing.id
      · have currentRow := List.inj_on_of_nodup_map db.primaryKey present member
          (same.trans sameId.symm)
        have laterRow := List.inj_on_of_nodup_map after.primaryKey presentLater
          (Db.find_eq_some.mp foundNew).1 (laterId.trans (same.trans sameId.symm))
        rw [currentRow, laterRow] at differs
        obtain ⟨log, logged, name⟩ := complete field differs
        exact ⟨log, logged, (ids log logged).trans same.symm, name⟩
      · have kept : current ∈ after.transactions := by
          rw [writes.rows]
          exact List.mem_map.mpr ⟨current, present, if_neg same⟩
        have unchanged := List.inj_on_of_nodup_map after.primaryKey presentLater kept laterId
        rw [unchanged] at differs
        exact absurd rfl differs

/-- A commit that goes through keeps the trails exactly when it is one on current values. -/
theorem trailed_commit_iff (valid : edit.dto.Valid isDateString)
    (existing : edit.existing = snapshot.toEntity)
    (found : db.find edit.existing.id = some row)
    (writes : Writes reader edit db after logs change) (trailed : Trailed reader db) :
    Trailed reader after ∧ LogsChanges reader db after ↔
      OnCurrent reader edit.dto edit.existing row := by
  have set := changeOf_eq_some.mp writes.sets
  have sameId : snapshot.id = edit.existing.id := (congrArg Transaction.id existing).symm
  obtain ⟨member, rowId⟩ := Db.find_eq_some.mp found
  have logged : logRows snapshot.toEntity edit.dto edit.editedBy
      (changedFields snapshot.toEntity edit.dto) = some logs := existing ▸ writes.logged
  have chained : Chained reader edit.existing.id 0 db := rowId ▸ trailed row member
  rw [logsChanges_iff writes found]
  refine ⟨?_, ?_⟩
  · rintro ⟨trailedAfter, audited⟩
    obtain ⟨present, newId⟩ := Db.find_eq_some.mp (find_of_updateRows found writes.rows)
    have chainedAfter : Chained reader edit.existing.id 0 after :=
      newId ▸ trailedAfter (row.set change) present
    rw [existing]
    exact onCurrent_of_fresh valid set (fresh_of_audited found sameId (Nat.zero_le _) logged
      writes.rows writes.appended chainedAfter audited)
  · intro current
    rw [existing] at current
    obtain ⟨chainedAfter, audited⟩ := audited_of_fresh found sameId (Nat.zero_le _) logged
      writes.rows writes.appended chained (current.fresh valid set)
    refine ⟨?_, audited⟩
    intro later present
    by_cases same : later.id = edit.existing.id
    · exact same ▸ chainedAfter
    · have earlier : later ∈ db.transactions := by
        rw [writes.rows] at present
        obtain ⟨original, presentBefore, changed⟩ := List.mem_map.mp present
        by_cases its : original.id = edit.existing.id
        · rw [if_pos its] at changed
          exact absurd (changed ▸ its) same
        · rw [if_neg its] at changed
          exact changed ▸ presentBefore
      exact chained_of_other writes same (trailed later earlier)

end Commit

/-! ## Runs -/

section Runs

variable {event : SystemEvent}

/-- A call of an attempt logs nothing. -/
theorem editLogs_of_called {server : Server} {attempt : Attempt} {world after : World}
    {pending : Pending} {activity : Activity}
    (calls : Called server attempt world pending activity after) :
    after.db.editLogs = world.db.editLogs := by
  cases calls with
  | stored converts inserts => exact (Db.insert_eq_some.mp inserts).2.2
  | _ => rfl

/-- A step that is no commit logs nothing and changes no row. -/
theorem grown_of_moves (moves : Moves settings system event next)
    (uncommitted : ∀ index, event ≠ .commit index) :
    next.world.db.editLogs = system.world.db.editLogs ∧
      system.world.db.transactions <+: next.world.db.transactions := by
  refine ⟨?_, rows_of_moves moves uncommitted⟩
  cases moves with
  | called found active calls => exact editLogs_of_called calls
  | posted converts inserts => exact (Db.insert_eq_some.mp inserts).2.2
  | committed => exact absurd rfl (uncommitted _)
  | _ => rfl

/-- A commit writes what an edit that goes through has to write, and nothing otherwise. -/
theorem commit_cases {index : ℕ} (read : EditsRead isDateString system)
    (step : system.commit settings index = some next) :
    ∃ edit, system.edits[index]? = some edit ∧ edit ∈ system.edits ∧
      ((¬ Edit.GoesThrough settings.server.reader ⟨edit.dto, edit.editedBy⟩ edit.existing ∧
          next.world.db = system.world.db) ∨
        Edit.GoesThrough settings.server.reader ⟨edit.dto, edit.editedBy⟩ edit.existing ∧
          ∃ logs change,
            Writes settings.server.reader edit system.world.db next.world.db logs change) := by
  unfold System.commit at step
  split at step
  next => cases step
  next edit found =>
    cases step
    have member := List.mem_of_getElem? found
    obtain ⟨row, present⟩ := read.known edit member
    obtain ⟨snapshot, existing⟩ := read.snapshots edit member
    refine ⟨edit, found, member, ?_⟩
    rcases updated : Procedure.run (updateExisting settings.server.reader edit.existing edit.dto
      edit.editedBy) system.world.db with ⟨result, db⟩
    rw [System.inDb, updated]
    have sameId : edit.existing.id = snapshot.id := congrArg Transaction.id existing
    have present' : system.world.db.find snapshot.id = some row := sameId ▸ present
    have goes := @exists_updateExisting_ok_iff settings.server.reader system.world.db edit.dto
      edit.editedBy row snapshot present' (read.valid edit member).nonnegAmount
    rw [← existing, updated] at goes
    cases result with
    | ok response =>
        obtain ⟨logs, change, logged, sets, rows, appended⟩ :=
          (updateExisting_eq_ok present).mp ⟨response, updated⟩
        exact Or.inr ⟨goes.mp ⟨db, response, rfl⟩, logs, change, logged, sets, rows, appended⟩
    | error failure =>
        refine Or.inl ⟨?_, updateExisting_error updated⟩
        intro through
        obtain ⟨_, _, ok⟩ := goes.mpr through
        cases ok

theorem editsRead_step (validated : event.Validated isDateString)
    (read : EditsRead isDateString system)
    (step : (application settings).step system event = some next) :
    EditsRead isDateString next := by
  have kept : ∀ edit ∈ system.edits,
      edit.dto.Valid isDateString ∧ ∃ row : TransactionRow, edit.existing = row.toEntity :=
    fun edit member => ⟨read.valid edit member, read.snapshots edit member⟩
  have edits : ∀ edit ∈ next.edits,
      edit.dto.Valid isDateString ∧ ∃ row : TransactionRow, edit.existing = row.toEntity := by
    cases moves_of_step read.known step with
    | restarted => exact fun edit member => absurd member List.not_mem_nil
    | opened found =>
        intro edit member
        rcases List.mem_append.mp member with earlier | last
        · exact kept edit earlier
        · rw [List.mem_singleton.mp last]
          exact ⟨validated, _, rfl⟩
    | committed | uncommitted =>
        exact fun edit member => kept edit (List.mem_of_mem_eraseIdx member)
    | _ => exact kept
  exact ⟨editsKnown_step read.known step, fun edit member => (edits edit member).1,
    fun edit member => (edits edit member).2⟩

/-- One step keeps the trails exactly when it commits nothing unseen. -/
theorem trailed_step_iff (read : EditsRead isDateString system)
    (trailed : Trailed settings.server.reader system.world.db)
    (step : (application settings).step system event = some next) :
    Trailed settings.server.reader next.world.db ∧
        LogsChanges settings.server.reader system.world.db next.world.db ↔
      CommitsSeen settings.server.reader system event := by
  have grown : ∀ {after : Db}, after.editLogs = system.world.db.editLogs ∧
      system.world.db.transactions <+: after.transactions →
        Trailed settings.server.reader after ∧
          LogsChanges settings.server.reader system.world.db after :=
    fun same => ⟨trailed_of_grown trailed same.1 same.2, logsChanges_of_grown same.1 same.2⟩
  cases event with
  | commit index =>
      obtain ⟨edit, found, member, effect⟩ := commit_cases read step
      obtain ⟨row, present⟩ := read.known edit member
      obtain ⟨snapshot, existing⟩ := read.snapshots edit member
      rcases effect with ⟨fails, same⟩ | ⟨through, logs, change, writes⟩
      · rw [same]
        refine iff_of_true (grown ⟨rfl, List.prefix_refl _⟩) ?_
        intro other current found' _ through
        cases found.symm.trans found'
        exact absurd through fails
      · rw [trailed_commit_iff (read.valid edit member) existing present writes trailed]
        refine ⟨?_, ?_⟩
        · intro seen other current found' present' _
          cases found.symm.trans found'
          cases present.symm.trans present'
          exact seen
        · exact fun seen => seen edit row found present through
  | _ =>
      refine iff_of_true (grown (grown_of_moves (moves_of_step read.known step) ?_)) trivial
      intro index impossible
      cases impossible

end Runs

/-! ## A sample run -/

/-- A row is posted, and its bank edited. -/
def editedRun : List {event : SystemEvent // event.Validated isIsoText} := [
  ⟨.post ⟨"receipt", epoch⟩ receiptDto, trivial⟩,
  ⟨.read "receipt" (bankEdits false).dto none, bankEdits_valid isIsoText false⟩,
  ⟨.commit 0, trivial⟩]

/-- What commits on the row as it has read it is on current values, if it gives no time and no text
is cut. -/
theorem onCurrent_toEntity {dto : UpdateTransactionDto} (row : TransactionRow) (texts : dto.Uncut)
    (timeless : dto.timestamp = .undefined) : OnCurrent reader dto row.toEntity row where
  seen _ _ _ := rfl
  texts := texts
  timestampGiven := by
    rw [timeless]
    nofun
  timestamp s t given := by
    rw [timeless] at given
    cases given

theorem commitsSeen_editedRun : (validatedApplication sampleSettings isIsoText).EachStep
    (fun system event _ => CommitsSeen utcReader system event.val) .initial editedRun := by
  refine EventMachine.eachStep_cons.mpr fun posted post => ⟨trivial, ?_⟩
  refine EventMachine.eachStep_cons.mpr fun opened read => ⟨trivial, ?_⟩
  refine EventMachine.eachStep_cons.mpr fun _ _ => ⟨?_, EventMachine.eachStep_nil⟩
  intro edit row waits found _
  have idle : posted.edits = [] := by
    cases post
    rfl
  have uncut : (bankEdits false).dto.Uncut := by
    refine ⟨nofun, ?_⟩
    intro bank given
    cases given
    decide
  cases read
  cases present : posted.world.db.find "receipt" with
  | none =>
      simp only [System.read, present, idle] at waits
      cases waits
  | some current =>
      simp only [System.read, present, idle] at waits found
      cases waits
      have sameId : current.toEntity.id = "receipt" := (Db.find_eq_some.mp present).2
      rw [sameId, present] at found
      cases found
      exact onCurrent_toEntity _ uncut rfl

end BirrTrack.Application
