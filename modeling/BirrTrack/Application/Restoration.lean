import BirrTrack.Application.Provenance
import BirrTrack.Transactions.Restoration

/-! # Undoing edits

A client that has read a row can undo whatever was edited since by giving the values back that it
read, if the validators take them: the row is as it was, no matter what else the application did in
between.
-/

namespace BirrTrack.Application

open Database Processing Transactions Telegram

variable {settings : Settings} {isDateString : String → Prop} {past events : List SystemEvent}
  {before system next : System} {row : TransactionRow} {index : ℕ} {edit : OpenEdit}

/-- A PATCH request that gives back what was read of a row. -/
structure GivesBack (row : TransactionRow) (edit : OpenEdit) : Prop where
  id : edit.existing.id = row.id
  dto : edit.dto = row.sentBack
  editedBy : FitsVarchar 120 edit.editedBy

/-- The rows of an id are later versions of the row that had the id before. -/
theorem Extends.versions (extended : Extends before system)
    (member : row ∈ before.world.db.transactions) :
    ∀ other ∈ system.world.db.transactions, other.id = row.id → other.origin = row.origin := by
  intro other present sameId
  obtain ⟨later, found, same⟩ := extended.origin member
  have laterId : later.id = row.id := congrArg Origin.id same
  rw [List.inj_on_of_nodup_map system.world.db.primaryKey present found
    (sameId.trans laterId.symm), same]

/-- Such a request commits whatever was stored since it was read. -/
theorem commit_givesBack (sound : Sound settings past system) (known : EditsKnown system)
    (back : row.GoesBack settings.server.reader) (waits : system.edits[index]? = some edit)
    (gives : GivesBack row edit) :
    ∃ restored, (application settings).step system (.commit index) = some restored ∧
      restored.world.db.transactions =
        Db.updateRows system.world.db.transactions row.id row.columns := by
  have member := List.mem_of_getElem? waits
  obtain ⟨snapshot, header, existing, -, -⟩ := sound.edits edit member
  obtain ⟨current, found⟩ := known edit member
  have snapshotId : edit.existing.id = snapshot.id := congrArg Transaction.id existing
  have foundAt : system.world.db.find snapshot.id = some current := snapshotId ▸ found
  obtain ⟨after, response, ran⟩ :=
    (exists_updateExisting_ok_iff foundAt (nonnegAmount_sentBack back.amount)).mpr
      ⟨storable_sentBack back, Or.inr gives.editedBy⟩
  obtain ⟨logs, change, -, sets, rows, -, -⟩ :=
    updateExisting_answers (existing ▸ found) (getUpdateFields_sentBack row) ran
  rw [changeOf_sentBack back] at sets
  cases sets
  have step : (application settings).step system (.commit index) =
      some { (system.inDb (updateExisting settings.server.reader edit.existing edit.dto
        edit.editedBy)) with edits := system.edits.eraseIdx index } := by
    change system.commit settings index = _
    simp only [System.commit, waits]
  refine ⟨_, step, ?_⟩
  simp only [System.inDb, existing, gives.dto, ran]
  rw [rows, ← gives.id, existing]

/-- A client that gives back what it read of a row, where the validators take it, sets the row back
to it, and no other, whatever requests, jobs and restarts came in between. -/
theorem run_restores (settings : Settings) {past events : List SystemEvent}
    {before system : System} {row : TransactionRow} {index : ℕ} {edit : OpenEdit}
    (validator : TakesIsoDates isDateString)
    (reached : (application settings).run .initial past = some before)
    (member : row ∈ before.world.db.transactions) (back : row.GoesBack settings.server.reader)
    (ran : (application settings).run before events = some system)
    (waits : system.edits[index]? = some edit) (gives : GivesBack row edit) :
    edit.dto.Valid isDateString ∧
      ∃ restored, (application settings).step system (.commit index) = some restored ∧
        restored.world.db.find row.id = some row ∧
        restored.world.db.transactions = system.world.db.transactions.map fun other =>
          if other.id = row.id then row else other := by
  have whole : (application settings).run .initial (past ++ events) = some system := by
    rw [EventMachine.run_append, reached]
    exact ran
  obtain ⟨restored, step, rows⟩ :=
    commit_givesBack (sound_run whole) (editsKnown_run whole) back waits gives
  have extended := (run_extends settings reached ran).1
  rw [updateRows_columns (extended.versions member)] at rows
  refine ⟨gives.dto ▸ back.valid validator, restored, step, ?_, rows⟩
  obtain ⟨later, present, same⟩ := extended.origin member
  refine Db.find_eq_some.mpr ⟨?_, rfl⟩
  rw [rows]
  have sameId : later.id = row.id := congrArg Origin.id same
  exact List.mem_map.mpr ⟨later, present, if_pos sameId⟩

/-- A request that has found its row waits to commit. -/
theorem run_read {id : String} {dto : UpdateTransactionDto} {header : Option String}
    (found : system.world.db.find id = some row) :
    (application settings).run system [.read id dto header] =
      some { system with edits := system.edits ++ [⟨row.toEntity, dto, editedBy header⟩] } := by
  have step : (application settings).step system (.read id dto header) =
      some { system with edits := system.edits ++ [⟨row.toEntity, dto, editedBy header⟩] } := by
    change some (system.read id dto header) = _
    simp only [System.read, found]
  rw [EventMachine.run_cons_of_step _ _ step, EventMachine.run_nil]

/-- The edit of the sample run, after which the bank is given back as it was read before. -/
theorem sampleRun_restores : ∃ before system row restored,
    (application sampleSettings).run .initial (sampleRun.take 10) = some before ∧
      row ∈ before.world.db.transactions ∧
      (application sampleSettings).run before (sampleRun.drop 10 ++
        [.read row.id row.sentBack none]) = some system ∧
      row.sentBack.Valid isIsoText ∧
      (application sampleSettings).step system (.commit 0) = some restored ∧
      restored.world.db.find row.id = some row ∧
      restored.world.db.transactions =
        system.world.db.transactions.map fun other => if other.id = row.id then row else other := by
  have evaluated : ((application sampleSettings).run .initial (sampleRun.take 10)).any
      (fun before => before.world.db.transactions.any fun row => row.id = "second" ∧
        (0 ≤ row.amount.cents ∧ HasLength 1 128 row.transactionId.value ∧
          (0 ≤ row.timestamp.instant.getUTCFullYear ∧
            row.timestamp.instant.getUTCFullYear ≤ 9999) ∧
          HasLength 1 120 row.bankName.value ∧
          0 ≤ row.confidence.val ∧ row.confidence.val ≤ 1) ∧
        ((application sampleSettings).run before (sampleRun.drop 10)).any fun edited =>
          edited.edits.length = 0 ∧ (edited.world.db.find row.id).isSome) = true := by
    decide +kernel
  obtain ⟨before, reached, rows⟩ := (Option.any_eq_true _ _).mp evaluated
  obtain ⟨row, member, conditions⟩ := List.any_eq_true.mp rows
  obtain ⟨-, ⟨nonneg, number, year, bank, confidence⟩, ends⟩ := of_decide_eq_true conditions
  obtain ⟨edited, ran, quiet⟩ := (Option.any_eq_true _ _).mp ends
  obtain ⟨idle, exists_⟩ := of_decide_eq_true quiet
  obtain ⟨current, found⟩ := Option.isSome_iff_exists.mp exists_
  have back : row.GoesBack sampleSettings.server.reader :=
    ⟨nonneg, number, year, dvd_zero _, bank, confidence⟩
  have continued : (application sampleSettings).run before (sampleRun.drop 10 ++
      [.read row.id row.sentBack none]) = some { edited with
        edits := edited.edits ++ [⟨current.toEntity, row.sentBack, editedBy none⟩] } := by
    rw [EventMachine.run_append, ran, Option.bind_some, run_read found]
  have waits : (edited.edits ++ [⟨current.toEntity, row.sentBack, editedBy none⟩])[0]? =
      some ⟨current.toEntity, row.sentBack, editedBy none⟩ := by
    rw [List.length_eq_zero_iff.mp idle]
    rfl
  have editor : FitsVarchar 120 (editedBy none) := ⟨by decide, by decide⟩
  have gives : GivesBack row ⟨current.toEntity, row.sentBack, editedBy none⟩ :=
    ⟨(Db.find_eq_some.mp found).2, rfl, editor⟩
  obtain ⟨valid, restored, step, same, others⟩ :=
    run_restores sampleSettings takesIsoDates_isIsoText reached member back continued waits gives
  exact ⟨before, _, row, restored, reached, member, continued, valid, step, same, others⟩

end BirrTrack.Application
