import BirrTrack.Transactions.Service

/-! # What an update does

`commitUpdate_eq_ok` says when the database transaction of an update goes through
and what it writes; every later result about updates rests on it.
-/

namespace BirrTrack.Transactions

open Js Database

variable {reader : DateReader} {db after : Db} {existing : Transaction}
  {dto : UpdateTransactionDto} {editedBy : String} {row : TransactionRow} {change : RowChange}

/-- The given fields whose new value reads differently from the row as it was read. -/
def changedFields (existing : Transaction) (dto : UpdateTransactionDto) :
    List EditableTransactionField :=
  (getUpdateFields dto).filter fun field =>
    readFieldValue (existing.get field) ≠ readFieldValue (dto.get field)

/-- The log rows of a list of fields, unless a column rejects a value. -/
def logRows (existing : Transaction) (dto : UpdateTransactionDto) (editedBy : String)
    (fields : List EditableTransactionField) : Option (List EditLog) :=
  fields.mapM fun field => (editLog existing dto editedBy field).toRow

theorem logRows_cons (field : EditableTransactionField) (fields : List EditableTransactionField) :
    logRows existing dto editedBy (field :: fields) =
      ((editLog existing dto editedBy field).toRow).bind fun log =>
        (logRows existing dto editedBy fields).map (log :: ·) := by
  simp only [logRows, List.mapM_cons, Option.bind_eq_bind, Option.pure_def, Option.map_eq_bind,
    Function.comp_def]

/-- The columns that a body sets, unless preparing them throws or a column rejects a
value. -/
def changeOf (reader : DateReader) (dto : UpdateTransactionDto) : Option RowChange :=
  (prepareUpdatePayload reader dto).toOption.bind (·.toChange reader)

theorem toRow_transactionId {log : NewEditLog} {stored : EditLog}
    (converted : log.toRow = some stored) :
    stored.transactionId = log.transactionId ∧ stored.fieldName = log.fieldName ∧
      stored.oldValue.map Text.value = log.oldValue ∧
      stored.newValue.map Text.value = log.newValue ∧
      Varchar.ofString 120 log.editedBy = some stored.editedBy := by
  have nullable : ∀ {value : Option String} {text : Option Text},
      nullableText value = some text → text.map Text.value = value := by
    intro value text converted
    cases value with
    | none => cases converted; rfl
    | some value =>
        obtain ⟨t, found, rfl⟩ := Option.map_eq_some_iff.mp converted
        exact congrArg some (Text.ofString_eq_some found)
  simp only [NewEditLog.toRow, Option.bind_eq_bind, Option.bind_eq_some_iff, Option.pure_def,
    Option.some_inj] at converted
  obtain ⟨oldValue, old, newValue, new, editor, by_, rfl⟩ := converted
  exact ⟨rfl, rfl, nullable old, nullable new, by_⟩

/-- A field that reads the same is not logged. -/
theorem run_writeEditLog_of_same {field : EditableTransactionField}
    (same : readFieldValue (existing.get field) = readFieldValue (dto.get field)) :
    Procedure.run (writeEditLog existing dto editedBy field) db = (.ok (), db) := by
  simp only [writeEditLog, editLog, same, ↓reduceIte, Procedure.run_pure]

/-- The log row of a changed field is stored unless a column rejects a value. -/
theorem run_writeEditLog {field : EditableTransactionField}
    (known : existing.id ∈ db.transactions.map TransactionRow.id)
    (differs : readFieldValue (existing.get field) ≠ readFieldValue (dto.get field)) :
    Procedure.run (writeEditLog existing dto editedBy field) db = (.ok (), after) ↔
      ∃ log, (editLog existing dto editedBy field).toRow = some log ∧
        after.transactions = db.transactions ∧ after.editLogs = db.editLogs ++ [log] := by
  have saved : Procedure.run (writeEditLog existing dto editedBy field) db =
      Procedure.run (saveEditLog (editLog existing dto editedBy field)) db := by
    simp only [writeEditLog, editLog, differs, ↓reduceIte]
  rw [saved]
  cases converted : (editLog existing dto editedBy field).toRow with
  | none =>
      have failed : Procedure.run (saveEditLog (editLog existing dto editedBy field)) db =
          (.error .queryFailed, db) :=
        Procedure.run_statement_error (by rw [converted]; rfl)
      rw [failed]
      refine ⟨?_, ?_⟩
      · intro ran
        cases ran
      · intro conditions
        obtain ⟨log, none, -⟩ := conditions
        cases none
  | some log =>
      have ids : log.transactionId ∈ db.transactions.map TransactionRow.id := by
        rw [(toRow_transactionId converted).1]
        exact known
      obtain ⟨next, appended, rows, logged⟩ := Db.appendLog_of_mem ids
      have done : Procedure.run (saveEditLog (editLog existing dto editedBy field)) db =
          (.ok (), next) :=
        Procedure.run_statement_ok (by rw [converted, Option.bind_some, appended])
      rw [done]
      refine ⟨?_, ?_⟩
      · intro ran
        cases ran
        exact ⟨log, rfl, rows, logged⟩
      · intro conditions
        obtain ⟨found, same, rows', logged'⟩ := conditions
        cases same
        rw [Db.ext (rows.trans rows'.symm) (logged.trans logged'.symm)]

/-- The loop of an update logs the changed fields in their order. -/
theorem run_writeEditLogs {fields : List EditableTransactionField}
    (known : existing.id ∈ db.transactions.map TransactionRow.id) :
    Procedure.run (forM fields (writeEditLog existing dto editedBy)) db = (.ok (), after) ↔
      ∃ logs, logRows existing dto editedBy (fields.filter fun field =>
          readFieldValue (existing.get field) ≠ readFieldValue (dto.get field)) = some logs ∧
        after.transactions = db.transactions ∧ after.editLogs = db.editLogs ++ logs := by
  induction fields generalizing db with
  | nil =>
      simp only [List.forM_nil, Procedure.run_pure, List.filter_nil, logRows, List.mapM_nil]
      refine ⟨?_, ?_⟩
      · intro ran
        cases ran
        exact ⟨[], rfl, rfl, (List.append_nil _).symm⟩
      · intro conditions
        obtain ⟨logs, same, rows, logged⟩ := conditions
        cases same
        rw [List.append_nil] at logged
        rw [Db.ext rows logged]
  | cons field fields ih =>
      rw [List.forM_cons, Procedure.run_bind_eq_ok]
      by_cases same : readFieldValue (existing.get field) = readFieldValue (dto.get field)
      · simp only [run_writeEditLog_of_same same, ne_eq, same, not_true_eq_false, decide_false,
          Bool.false_eq_true, not_false_eq_true, List.filter_cons_of_neg]
        rw [← ih known]
        refine ⟨?_, ?_⟩
        · intro conditions
          obtain ⟨a, middle, first, rest⟩ := conditions
          cases first
          exact rest
        · intro rest
          exact ⟨(), db, rfl, rest⟩
      · simp only [ne_eq, same, not_false_eq_true, decide_true, List.filter_cons_of_pos,
          logRows_cons]
        refine ⟨?_, ?_⟩
        · intro conditions
          obtain ⟨a, middle, first, ran⟩ := conditions
          obtain ⟨log, converted, rows, logged⟩ := (run_writeEditLog known same).mp first
          obtain ⟨logs, found, rows', logged'⟩ := (ih (rows ▸ known)).mp ran
          refine ⟨log :: logs, ?_, rows'.trans rows, ?_⟩
          · rw [converted, Option.bind_some, found, Option.map_some]
          · rw [logged', logged, List.append_assoc, List.singleton_append]
        · intro conditions
          obtain ⟨all, converts, rows', logged'⟩ := conditions
          obtain ⟨log, converted, more⟩ := Option.bind_eq_some_iff.mp converts
          obtain ⟨logs, found, rfl⟩ := Option.map_eq_some_iff.mp more
          have ids : log.transactionId ∈ db.transactions.map TransactionRow.id := by
            rw [(toRow_transactionId converted).1]
            exact known
          obtain ⟨middle, -, rows, logged⟩ := Db.appendLog_of_mem ids
          have known' : existing.id ∈ middle.transactions.map TransactionRow.id := rows ▸ known
          refine ⟨(), middle, (run_writeEditLog known same).mpr ⟨log, converted, rows, logged⟩, ?_⟩
          refine (ih known').mpr ⟨logs, found, rows'.trans rows.symm, ?_⟩
          rw [logged', logged, List.append_assoc, List.singleton_append]

/-- The new values are stored unless preparing them throws or a column rejects one. -/
theorem run_storeUpdate {id : String} (found : db.find id = some row) {saved : Transaction} :
    Procedure.run (storeUpdate reader id dto) db = (.ok saved, after) ↔
      ∃ change, changeOf reader dto = some change ∧ after = db.update id change ∧
        saved = (row.set change).toEntity := by
  cases prepared : prepareUpdatePayload reader dto with
  | error failure =>
      have failed : Procedure.run (storeUpdate reader id dto) db = (.error failure, db) :=
        Procedure.run_bind_error (congrArg (·, db) prepared)
      simp only [failed, changeOf, prepared, Except.toOption, Option.bind_none, Prod.mk.injEq,
        reduceCtorEq, false_and, exists_false]
  | ok payload =>
      have begun : Procedure.run (Procedure.ofExcept (prepareUpdatePayload reader dto)) db =
          (.ok payload, db) := congrArg (·, db) prepared
      rw [storeUpdate, Procedure.run_bind_ok begun]
      cases sets : payload.toChange reader with
      | none =>
          have failed : Procedure.run (updateTransaction reader id payload) db =
              (.error .queryFailed, db) :=
            Procedure.run_statement_error (by rw [sets])
          simp only [Procedure.run_bind_error failed, changeOf, prepared, Except.toOption,
            Option.bind_some, sets, Prod.mk.injEq, reduceCtorEq, false_and, exists_false]
      | some change =>
          have done : Procedure.run (updateTransaction reader id payload) db =
              (.ok (), db.update id change) :=
            Procedure.run_statement_ok (by rw [sets])
          have reread : Procedure.run (findOne id) (db.update id change) =
              (.ok (some (row.set change).toEntity), db.update id change) := by
            rw [findOne, Procedure.run_query, Db.find_update found, Option.map_some]
          rw [Procedure.run_bind_ok done, Procedure.run_bind_ok reread, Procedure.run_pure]
          simp only [changeOf, prepared, Except.toOption, Option.bind_some, sets, Option.some_inj,
            Prod.mk.injEq, Except.ok.injEq, exists_eq_left']
          refine ⟨?_, ?_⟩
          · intro conditions
            obtain ⟨saved, after⟩ := conditions
            exact ⟨after.symm, saved.symm⟩
          · intro conditions
            obtain ⟨after, saved⟩ := conditions
            exact ⟨saved.symm, after.symm⟩

/-- The database transaction of an update goes through when its log rows and its SET
clause can be stored, and it writes exactly these. -/
theorem commitUpdate_eq_ok (found : db.find existing.id = some row) {saved : Transaction} :
    Procedure.run (commitUpdate reader existing dto editedBy) db = (.ok saved, after) ↔
      ∃ logs change, logRows existing dto editedBy (changedFields existing dto) = some logs ∧
        changeOf reader dto = some change ∧
        after.transactions = Db.updateRows db.transactions existing.id change ∧
        after.editLogs = db.editLogs ++ logs ∧ saved = (row.set change).toEntity := by
  have known : existing.id ∈ db.transactions.map TransactionRow.id := by
    obtain ⟨member, same⟩ := Db.find_eq_some.mp found
    exact List.mem_map.mpr ⟨row, member, same⟩
  have foundIn : ∀ logged : Db, logged.transactions = db.transactions →
      logged.find existing.id = some row := by
    intro logged rows
    rw [Db.find, rows]
    exact found
  rw [commitUpdate, Procedure.run_transaction_eq_ok, Procedure.run_bind_eq_ok]
  refine ⟨?_, ?_⟩
  · intro conditions
    obtain ⟨_, logged, wrote, ran⟩ := conditions
    obtain ⟨logs, converted, rows, appended⟩ := (run_writeEditLogs known).mp wrote
    obtain ⟨change, sets, rfl, saved⟩ := (run_storeUpdate (foundIn logged rows)).mp ran
    exact ⟨logs, change, converted, sets, by rw [Db.update_transactions, rows], appended, saved⟩
  · intro conditions
    obtain ⟨logs, change, converted, sets, rows, appended, saved⟩ := conditions
    have sameIds : after.transactions.map TransactionRow.id =
        db.transactions.map TransactionRow.id := by
      rw [rows, Db.map_id_updateRows]
    let logged : Db := ⟨db.transactions, after.editLogs, db.primaryKey, sameIds ▸ after.foreignKey⟩
    refine ⟨(), logged, (run_writeEditLogs known).mpr ⟨logs, converted, rfl, appended⟩, ?_⟩
    exact (run_storeUpdate (foundIn logged rfl)).mpr ⟨change, sets, Db.ext rows rfl, saved⟩

/-- A log row records its field's text in the row as it was read and in the body. -/
theorem logRows_spec {fields : List EditableTransactionField} {logs : List EditLog}
    (converted : logRows existing dto editedBy fields = some logs) :
    logs.map EditLog.fieldName = fields ∧ ∀ log ∈ logs, log.transactionId = existing.id ∧
      log.oldValue.map Text.value = readFieldValue (existing.get log.fieldName) ∧
      log.newValue.map Text.value = readFieldValue (dto.get log.fieldName) ∧
      Varchar.ofString 120 editedBy = some log.editedBy := by
  induction fields generalizing logs with
  | nil =>
      cases converted
      exact ⟨rfl, fun log member => absurd member List.not_mem_nil⟩
  | cons field fields ih =>
      rw [logRows_cons, Option.bind_eq_some_iff] at converted
      obtain ⟨log, first, tail⟩ := converted
      obtain ⟨logs, rest, rfl⟩ := Option.map_eq_some_iff.mp tail
      obtain ⟨transactionId, fieldName, oldValue, newValue, editor⟩ := toRow_transactionId first
      obtain ⟨names, each⟩ := ih rest
      refine ⟨by rw [List.map_cons, fieldName, names]; rfl, ?_⟩
      intro found member
      rcases List.mem_cons.mp member with rfl | later
      · rw [fieldName]
        exact ⟨transactionId, oldValue, newValue, editor⟩
      · exact each found later

/-! ## The SET clause, column by column -/

/-- What a property sets its column to: nothing when it is undefined, `null` when it
is null and the column has a value for that, and its own value converted. -/
def Property.column {α β : Type} (null : Option β) (convert : α → Option β) :
    Property α → Option (Option β)
  | undefined => some none
  | .null => null.map some
  | value a => (convert a).map some

/-- The first instant of 1970. -/
def epoch : Timestamptz := ⟨⟨0, by decide⟩, by decide⟩

theorem sent_zero_bounds (reader : DateReader) :
    |sent reader 0| ≤ 8640000000000000 ∧ -210866803200000 ≤ sent reader 0 := by
  have shift := abs_lt.mp (abs_sent_sub_lt reader 0)
  rw [abs_le]
  omega

/-- What is stored for `new Date(null)`, which is `new Date(0)`. -/
def sentEpoch (reader : DateReader) : Timestamptz :=
  ⟨⟨sent reader 0, (sent_zero_bounds reader).1⟩, (sent_zero_bounds reader).2⟩

theorem ofDate_zero (reader : DateReader) :
    Timestamptz.ofDate reader (timeClip 0) = some (sentEpoch reader) :=
  Timestamptz.ofDate_eq_some.mpr ⟨⟨0, by decide⟩, rfl, rfl⟩

/-- Except for the amount, a prepared payload has the values of the body. -/
theorem columns_of_prepared {payload : UpdatePayload}
    (prepared : prepareUpdatePayload reader dto = .ok payload) :
    payload.transactionId = dto.transactionId ∧
      payload.timestamp.mapM (Timestamptz.ofDate reader) =
        (dto.timestamp.column (some (sentEpoch reader)) fun s =>
          Timestamptz.ofDate reader (newDate reader s)) ∧
      payload.bankName = dto.bankName ∧ payload.confidence = dto.confidence ∧
      payload.imageUrl = dto.imageUrl := by
  unfold prepareUpdatePayload at prepared
  cases given : dto.amount with
  | null =>
      rw [given] at prepared
      cases prepared
  | undefined =>
      rw [given] at prepared
      cases prepared
      refine ⟨rfl, ?_, rfl, rfl, rfl⟩
      cases dto.timestamp with
      | null => exact congrArg (Option.map some) (ofDate_zero reader)
      | _ => rfl
  | value v =>
      rw [given] at prepared
      cases prepared
      refine ⟨rfl, ?_, rfl, rfl, rfl⟩
      cases dto.timestamp with
      | null => exact congrArg (Option.map some) (ofDate_zero reader)
      | _ => rfl

/-- The columns that a body sets, each decided by its own property. -/
structure SetBy (reader : DateReader) (dto : UpdateTransactionDto) (change : RowChange) : Prop where
  amount : dto.amount.column none (fun v => Numeric.ofText v.toFixed2) = some change.amount
  transactionId : dto.transactionId.column none (Varchar.ofString 128) = some change.transactionId
  timestamp : dto.timestamp.column (some (sentEpoch reader))
    (fun s => Timestamptz.ofDate reader (newDate reader s)) = some change.timestamp
  bankName : dto.bankName.column none (Varchar.ofString 120) = some change.bankName
  confidence : dto.confidence.column none some = some change.confidence
  imageUrl : dto.imageUrl.column (some none) (fun s => (Text.ofString s).map some) =
    some change.imageUrl

/-- The SET clause is converted column by column. -/
theorem toChange_eq_some {payload : UpdatePayload} :
    payload.toChange reader = some change ↔
      payload.amount.mapM Numeric.ofText = some change.amount ∧
        payload.transactionId.required (Varchar.ofString 128) = some change.transactionId ∧
        payload.timestamp.mapM (Timestamptz.ofDate reader) = some change.timestamp ∧
        payload.bankName.required (Varchar.ofString 120) = some change.bankName ∧
        payload.confidence.required some = some change.confidence ∧
        payload.imageUrl.nullable Text.ofString = some change.imageUrl := by
  simp only [UpdatePayload.toChange, Option.bind_eq_bind, Option.bind_eq_some_iff, Option.pure_def,
    Option.some_inj]
  refine ⟨?_, ?_⟩
  · rintro ⟨amount, first, transactionId, second, timestamp, third, bankName, fourth, confidence,
      fifth, imageUrl, sixth, rfl⟩
    exact ⟨first, second, third, fourth, fifth, sixth⟩
  · intro conditions
    obtain ⟨first, second, third, fourth, fifth, sixth⟩ := conditions
    exact ⟨_, first, _, second, _, third, _, fourth, _, fifth, _, sixth, rfl⟩

theorem Property.required_eq {α β : Type} (convert : α → Option β) (field : Property α) :
    field.required convert = field.column none convert := by
  cases field <;> rfl

theorem Property.nullable_eq {α β : Type} (convert : α → Option β) (field : Property α) :
    field.nullable convert = field.column (some none) fun a => (convert a).map some := by
  cases field with
  | undefined => rfl
  | null => rfl
  | value a =>
      simp only [Property.nullable, Property.column, Option.map_map]
      rfl

theorem mapM_some {α β : Type} (convert : α → Option β) (a : α) :
    (some a).mapM convert = (convert a).map some := rfl

/-- A body makes a change exactly if it sets each column so. -/
theorem changeOf_eq_some : changeOf reader dto = some change ↔ SetBy reader dto change := by
  have others : ∀ amount, prepareUpdatePayload reader dto = .ok amount →
      amount.amount.mapM Numeric.ofText =
        (dto.amount.column none fun v => Numeric.ofText v.toFixed2) →
      (changeOf reader dto = some change ↔ SetBy reader dto change) := by
    intro payload prepared amount
    obtain ⟨transactionId, date, bankName, confidence, imageUrl⟩ := columns_of_prepared prepared
    rw [changeOf, prepared, Except.toOption, Option.bind_some, toChange_eq_some, amount,
      transactionId, date, bankName, confidence, imageUrl, Property.required_eq,
      Property.required_eq, Property.required_eq, Property.nullable_eq]
    refine ⟨?_, ?_⟩
    · intro columns
      obtain ⟨first, second, third, fourth, fifth, sixth⟩ := columns
      exact ⟨first, second, third, fourth, fifth, sixth⟩
    · intro sets
      obtain ⟨first, second, third, fourth, fifth, sixth⟩ := sets
      exact ⟨first, second, third, fourth, fifth, sixth⟩
  cases given : dto.amount with
  | undefined =>
      refine others _ (by rw [prepareUpdatePayload, given]; rfl) ?_
      rw [given]
      rfl
  | null =>
      have throws : prepareUpdatePayload reader dto = .error .typeError := by
        rw [prepareUpdatePayload, given]
        rfl
      refine ⟨?_, ?_⟩
      · intro sets
        rw [changeOf, throws] at sets
        cases sets
      · intro sets
        have amount := sets.amount
        rw [given] at amount
        cases amount
  | value v =>
      refine others _ (by rw [prepareUpdatePayload, given]; rfl) ?_
      rw [given]
      exact mapM_some _ _

/-! ## The columns of the fields -/

/-- The type of a field's column. -/
def EditableTransactionField.Column : EditableTransactionField → Type
  | .amount => Numeric
  | .transactionId => Varchar 128
  | .timestamp => Timestamptz
  | .bankName => Varchar 120
  | .confidence => Number
  | .imageUrl => Option Text

def TransactionRow.column (row : TransactionRow) : (field : EditableTransactionField) → field.Column
  | .amount => row.amount
  | .transactionId => row.transactionId
  | .timestamp => row.timestamp
  | .bankName => row.bankName
  | .confidence => row.confidence
  | .imageUrl => row.imageUrl

def RowChange.column (change : RowChange) :
    (field : EditableTransactionField) → Option field.Column
  | .amount => change.amount
  | .transactionId => change.transactionId
  | .timestamp => change.timestamp
  | .bankName => change.bankName
  | .confidence => change.confidence
  | .imageUrl => change.imageUrl

/-- What a body sets a field's column to: `some none` where it sets nothing, and none where the
column takes no such value. -/
def UpdateTransactionDto.column (reader : DateReader) (dto : UpdateTransactionDto) :
    (field : EditableTransactionField) → Option (Option field.Column)
  | .amount => dto.amount.column none fun v => Numeric.ofText v.toFixed2
  | .transactionId => dto.transactionId.column none (Varchar.ofString 128)
  | .timestamp => dto.timestamp.column (some (sentEpoch reader)) fun s =>
      Timestamptz.ofDate reader (newDate reader s)
  | .bankName => dto.bankName.column none (Varchar.ofString 120)
  | .confidence => dto.confidence.column none some
  | .imageUrl => dto.imageUrl.column (some none) fun s => (Text.ofString s).map some

theorem SetBy.column (sets : SetBy reader dto change) (field : EditableTransactionField) :
    dto.column reader field = some (change.column field) := by
  cases field with
  | amount => exact sets.amount
  | transactionId => exact sets.transactionId
  | timestamp => exact sets.timestamp
  | bankName => exact sets.bankName
  | confidence => exact sets.confidence
  | imageUrl => exact sets.imageUrl

@[simp] theorem TransactionRow.set_column (row : TransactionRow) (change : RowChange)
    (field : EditableTransactionField) :
    (row.set change).column field = (change.column field).getD (row.column field) := by
  cases field <;> rfl

/-- An update sets a column to the body's value or leaves it. -/
theorem SetBy.column_set (sets : SetBy reader dto change) (row : TransactionRow)
    (field : EditableTransactionField) :
    (row.set change).column field = row.column field ∨
      dto.column reader field = some (some ((row.set change).column field)) := by
  rw [sets.column field, TransactionRow.set_column]
  cases change.column field with
  | none => exact Or.inl rfl
  | some new => exact Or.inr rfl

/-! ## Whole updates -/

/-- The change that sets no column. -/
def RowChange.nothing : RowChange := ⟨none, none, none, none, none, none⟩

@[simp] theorem TransactionRow.set_nothing (row : TransactionRow) : row.set .nothing = row := rfl

theorem mem_candidates (field : EditableTransactionField) : field ∈ candidates := by
  cases field <;> decide

/-- The fields of an update are those that are given. -/
theorem mem_getUpdateFields {field : EditableTransactionField} :
    field ∈ getUpdateFields dto ↔ dto.get field ≠ .undefined := by
  rw [getUpdateFields, List.mem_filter, decide_eq_true_eq]
  exact and_iff_right (mem_candidates field)

/-- A field has changed if it is given and its text differs. -/
theorem mem_changedFields {field : EditableTransactionField} :
    field ∈ changedFields existing dto ↔ dto.get field ≠ .undefined ∧
      readFieldValue (existing.get field) ≠ readFieldValue (dto.get field) := by
  rw [changedFields, List.mem_filter, mem_getUpdateFields, decide_eq_true_eq]

/-- A null timestamp is a change that is logged, whatever the row holds. -/
theorem timestamp_mem_changedFields (null : dto.timestamp = .null) :
    EditableTransactionField.timestamp ∈ changedFields row.toEntity dto := by
  refine mem_changedFields.mpr ⟨?_, ?_⟩ <;> rw [UpdateTransactionDto.get, null] <;> nofun

theorem nodup_changedFields : (changedFields existing dto).Nodup :=
  ((by decide : candidates.Nodup).filter _).filter _

theorem Property.toValue_eq_undefined {α : Type} {field : Property α} {value : α → Value}
    (defined : ∀ a, value a ≠ .undefined) (absent : field.toValue value = .undefined) :
    field = .undefined := by
  cases field with
  | undefined => rfl
  | null => cases absent
  | value a => exact absurd absent (defined a)

theorem Value.string_ne_undefined (s : String) : Value.string s ≠ .undefined := nofun

theorem Value.number_ne_undefined (n : Number) : Value.number n ≠ .undefined := nofun

theorem changeOf_of_nothing (reader : DateReader) (nothing : getUpdateFields dto = []) :
    changeOf reader dto = some .nothing := by
  have undefined : ∀ field, dto.get field = .undefined := by
    intro field
    by_contra given
    have member := mem_getUpdateFields.mpr given
    rw [nothing] at member
    exact List.not_mem_nil member
  refine changeOf_eq_some.mpr ⟨?_, ?_, ?_, ?_, ?_, ?_⟩
  · rw [Property.toValue_eq_undefined Value.number_ne_undefined (undefined .amount)]
    rfl
  · rw [Property.toValue_eq_undefined Value.string_ne_undefined (undefined .transactionId)]
    rfl
  · rw [Property.toValue_eq_undefined Value.string_ne_undefined (undefined .timestamp)]
    rfl
  · rw [Property.toValue_eq_undefined Value.string_ne_undefined (undefined .bankName)]
    rfl
  · rw [Property.toValue_eq_undefined Value.number_ne_undefined (undefined .confidence)]
    rfl
  · rw [Property.toValue_eq_undefined Value.string_ne_undefined (undefined .imageUrl)]
    rfl

/-- With the row as it was read, an update goes through when its log rows and its SET
clause can be stored; a body without any property has neither. -/
theorem updateExisting_eq_ok (found : db.find existing.id = some row) :
    (∃ response,
        Procedure.run (updateExisting reader existing dto editedBy) db = (.ok response, after)) ↔
      ∃ logs change,
        logRows existing dto editedBy (changedFields existing dto) = some logs ∧
        changeOf reader dto = some change ∧
        after.transactions = Db.updateRows db.transactions existing.id change ∧
        after.editLogs = db.editLogs ++ logs := by
  rw [updateExisting]
  by_cases nothing : getUpdateFields dto = []
  · have unset := changeOf_of_nothing reader nothing
    have same : ∀ rows, Db.updateRows rows existing.id RowChange.nothing = rows := by
      intro rows
      simp only [Db.updateRows, TransactionRow.set_nothing, ite_self, List.map_id']
    rw [if_pos nothing, Procedure.run_pure, changedFields, nothing, unset]
    refine ⟨?_, ?_⟩
    · intro conditions
      obtain ⟨response, ran⟩ := conditions
      cases ran
      exact ⟨[], .nothing, rfl, rfl, (same _).symm, (List.append_nil _).symm⟩
    · intro conditions
      obtain ⟨logs, change, none, sets, rows, logged⟩ := conditions
      cases none
      cases sets
      rw [same] at rows
      rw [Db.ext rows (logged.trans (List.append_nil _))]
      exact ⟨_, rfl⟩
  · rw [if_neg nothing]
    refine ⟨?_, ?_⟩
    · intro conditions
      obtain ⟨response, ran⟩ := conditions
      obtain ⟨saved, middle, committed, responded⟩ := Procedure.run_bind_eq_ok.mp ran
      cases responded
      obtain ⟨logs, change, logged, sets, rows, appended, -⟩ :=
        (commitUpdate_eq_ok found).mp committed
      exact ⟨logs, change, logged, sets, rows, appended⟩
    · intro conditions
      obtain ⟨logs, change, logged, sets, rows, appended⟩ := conditions
      exact ⟨_, Procedure.run_bind_eq_ok.mpr ⟨_, after,
        (commitUpdate_eq_ok found).mpr ⟨logs, change, logged, sets, rows, appended, rfl⟩, rfl⟩⟩

/-- An update that throws once the row is read writes nothing. -/
theorem updateExisting_error {failure : Failure}
    (failed : Procedure.run (updateExisting reader existing dto editedBy) db =
      (.error failure, after)) : after = db := by
  rw [updateExisting] at failed
  split at failed
  · cases failed
  · rw [Procedure.run_bind] at failed
    rcases committed : Procedure.run (commitUpdate reader existing dto editedBy) db with
      ⟨result, middle⟩
    rw [committed] at failed
    cases result with
    | ok saved => cases failed
    | error thrown =>
        cases failed
        exact Procedure.run_transaction_error committed

/-- An update of a row that is found goes on with that row. -/
theorem run_update_of_find {id : String} (found : db.find id = some row) :
    Procedure.run (update reader id dto editedBy) db =
      Procedure.run (updateExisting reader row.toEntity dto editedBy) db := by
  have read : Procedure.run (findOne id) db = (.ok (some row.toEntity), db) := by
    rw [findOne, Procedure.run_query, found, Option.map_some]
  rw [update, Procedure.run_bind_ok read]

/-- An update goes through when its log rows and its SET clause can be stored. -/
theorem update_eq_ok {id : String} (found : db.find id = some row) :
    (∃ response, Procedure.run (update reader id dto editedBy) db = (.ok response, after)) ↔
      ∃ logs change,
        logRows row.toEntity dto editedBy (changedFields row.toEntity dto) = some logs ∧
        changeOf reader dto = some change ∧
        after.transactions = Db.updateRows db.transactions id change ∧
        after.editLogs = db.editLogs ++ logs := by
  have sameId : row.toEntity.id = id := (Db.find_eq_some.mp found).2
  rw [run_update_of_find found, updateExisting_eq_ok (sameId.symm ▸ found), sameId]

/-- An update goes through for existing rows only. -/
theorem find_of_update_ok {id : String} {response : TransactionResponse}
    (ran : Procedure.run (update reader id dto editedBy) db = (.ok response, after)) :
    ∃ row, db.find id = some row := by
  have read : Procedure.run (findOne id) db =
      (.ok ((db.find id).map TransactionRow.toEntity), db) := rfl
  rw [update, Procedure.run_bind_ok read] at ran
  cases found : db.find id with
  | none =>
      rw [found] at ran
      cases ran
  | some row => exact ⟨row, rfl⟩

/-- An update that throws writes nothing. -/
theorem update_error {id : String} {failure : Failure}
    (failed : Procedure.run (update reader id dto editedBy) db = (.error failure, after)) :
    after = db := by
  cases found : db.find id with
  | none =>
      have read : Procedure.run (findOne id) db = (.ok none, db) := by
        rw [findOne, Procedure.run_query, found, Option.map_none]
      rw [update, Procedure.run_bind_ok read] at failed
      cases failed
      rfl
  | some row => exact updateExisting_error ((run_update_of_find found).symm.trans failed)

/-- After an update its row is found changed. -/
theorem find_of_updateRows {id : String} (found : db.find id = some row)
    (rows : after.transactions = Db.updateRows db.transactions id change) :
    after.find id = some (row.set change) := by
  rw [Db.find, rows]
  exact Db.find_update found

/-! ## What the row holds afterwards -/

/-- What becomes of a property: nothing when it is undefined. -/
def Property.given {α β : Type} (null : Option β) (value : α → Option β) : Property α → Option β
  | undefined => none
  | .null => null
  | .value a => value a

theorem Property.read_column {α β γ : Type} {field : Property α} {null : Option β}
    {convert : α → Option β} {set : Option β} {value : α → Option γ} (read : β → γ) {old : β}
    (sets : field.column null convert = some set)
    (reads : ∀ a b, field = .value a → convert a = some b → value a = some (read b)) :
    read (set.getD old) = (field.given (null.map read) value).getD (read old) := by
  cases field with
  | undefined =>
      cases sets
      rfl
  | null =>
      obtain ⟨b, rfl, rfl⟩ := Option.map_eq_some_iff.mp sets
      rfl
  | value a =>
      obtain ⟨b, stored, rfl⟩ := Option.map_eq_some_iff.mp sets
      rw [Property.given, reads a b rfl stored]
      rfl

/-- What a given field is read back as once it is stored; none where the update
leaves the field alone, or cannot store it. -/
def givenValue (reader : DateReader) (dto : UpdateTransactionDto) :
    EditableTransactionField → Option Value
  | .amount => dto.amount.given none fun v => some (.string v.toFixed2)
  | .transactionId => dto.transactionId.given none fun s =>
      (Varchar.ofString 128 s).map (.string ·.value)
  | .timestamp => dto.timestamp.given (some (.date (sentEpoch reader).instant)) fun s =>
      (Timestamptz.ofDate reader (newDate reader s)).map (.date ·.instant)
  | .bankName => dto.bankName.given none fun s => (Varchar.ofString 120 s).map (.string ·.value)
  | .confidence => dto.confidence.given none fun n => some (.number n)
  | .imageUrl => dto.imageUrl.given (some .null) fun s => some (.string s)

/-- No amount below zero is given. -/
def UpdateTransactionDto.NonnegAmount (dto : UpdateTransactionDto) : Prop :=
  ∀ v, dto.amount = .value v → 0 ≤ v.val

/-- No given text is longer than its column, which would cut it. -/
structure UpdateTransactionDto.Uncut (dto : UpdateTransactionDto) : Prop where
  transactionId : ∀ s, dto.transactionId = .value s → s.length ≤ 128
  bankName : ∀ s, dto.bankName = .value s → s.length ≤ 120

theorem UpdateTransactionDto.Valid.nonnegAmount {isDateString : String → Prop}
    (valid : dto.Valid isDateString) : dto.NonnegAmount := by
  intro v given
  have check := valid.amount
  rw [given] at check
  exact check.2

/-- After an update every field reads as given, or as before where it was not given. -/
theorem stored_set (set : SetBy reader dto change) (nonneg : dto.NonnegAmount)
    (field : EditableTransactionField) :
    (row.set change).stored field = (givenValue reader dto field).getD (row.stored field) := by
  cases field with
  | amount =>
      refine Property.read_column (fun n : Numeric => Value.string n.text) set.amount ?_
      intro v n given stored
      rw [(Numeric.text_of_toFixed2 (nonneg v given) stored).1]
  | transactionId =>
      refine Property.read_column (fun v : Varchar 128 => Value.string v.value) set.transactionId ?_
      intro s v _ stored
      rw [stored, Option.map_some]
  | timestamp =>
      refine Property.read_column (fun t : Timestamptz => Value.date t.instant) set.timestamp ?_
      intro s t _ stored
      rw [stored, Option.map_some]
  | bankName =>
      refine Property.read_column (fun v : Varchar 120 => Value.string v.value) set.bankName ?_
      intro s v _ stored
      rw [stored, Option.map_some]
  | confidence =>
      refine Property.read_column (fun n : Number => Value.number n) set.confidence ?_
      intro n m _ stored
      cases stored
      rfl
  | imageUrl =>
      refine Property.read_column
        (fun text : Option Text => (text.map Text.value).elim Value.null Value.string)
        set.imageUrl ?_
      intro s text _ stored
      obtain ⟨t, kept, rfl⟩ := Option.map_eq_some_iff.mp stored
      rw [Option.map_some, Text.ofString_eq_some kept]
      rfl

/-- A given property is null, for a column that takes it, or has a value. -/
theorem Property.given_of_column {α β : Type} {field : Property α} {null : Option β}
    {convert : α → Option β} {set : Option β} {value : α → Value}
    (sets : field.column null convert = some set) (given : field.toValue value ≠ .undefined) :
    (field = .null ∧ null.isSome = true) ∨ ∃ a, field = .value a := by
  cases field with
  | undefined => exact absurd rfl given
  | null =>
      obtain ⟨b, rfl, -⟩ := Option.map_eq_some_iff.mp sets
      exact Or.inl ⟨rfl, rfl⟩
  | value a => exact Or.inr ⟨a, rfl⟩

/-- Its column keeps a text as it is unless the text is longer than the column. -/
theorem Property.kept_of_column {limit : ℕ} {field : Property String}
    {set : Option (Varchar limit)} {s : String}
    (sets : field.column none (Varchar.ofString limit) = some set) (value : field = .value s) :
    ∃ kept, set = some kept ∧ (kept.value = s ↔ s.length ≤ limit) := by
  rw [value] at sets
  obtain ⟨kept, stored, rfl⟩ := Option.map_eq_some_iff.mp sets
  exact ⟨kept, rfl, Varchar.value_eq_iff stored⟩

/-- What is stored for the text of a date is what the driver sends for it. -/
theorem SetBy.timestamp_of_value (set : SetBy reader dto change) {s : String}
    (value : dto.timestamp = .value s) :
    ∃ (kept : Timestamptz) (t : TimeValue), change.timestamp = some kept ∧
      newDate reader s = some t ∧ kept.instant.ms = sent reader t.ms := by
  have column := set.timestamp
  rw [value] at column
  obtain ⟨kept, stored, sets⟩ := Option.map_eq_some_iff.mp column
  obtain ⟨t, read, same⟩ := Timestamptz.ofDate_eq_some.mp stored
  exact ⟨kept, t, sets.symm, read, same⟩

/-- A field that is not given keeps its value. -/
theorem stored_set_of_undefined (set : SetBy reader dto change) (nonneg : dto.NonnegAmount)
    {field : EditableTransactionField} (absent : dto.get field = .undefined) :
    (row.set change).stored field = row.stored field := by
  have untouched : givenValue reader dto field = none := by
    cases field with
    | amount => rw [givenValue, Property.toValue_eq_undefined Value.number_ne_undefined absent]; rfl
    | confidence =>
        rw [givenValue, Property.toValue_eq_undefined Value.number_ne_undefined absent]
        rfl
    | _ => rw [givenValue, Property.toValue_eq_undefined Value.string_ne_undefined absent]; rfl
  rw [stored_set set nonneg, untouched, Option.getD_none]

/-- The text of a stored value determines it. -/
theorem readFieldValue_stored {first second : TransactionRow} {field : EditableTransactionField} :
    readFieldValue (first.stored field) = readFieldValue (second.stored field) ↔
      first.stored field = second.stored field := by
  refine ⟨?_, congrArg readFieldValue⟩
  have text : ∀ value : Option String, readFieldValue (value.elim .null .string) = value := by
    intro value
    cases value <;> rfl
  cases field with
  | timestamp =>
      intro same
      exact congrArg Value.date (toISOString_injective (Option.some.inj same))
  | confidence =>
      exact fun same => congrArg Value.number (Number.toString_injective (Option.some.inj same))
  | imageUrl =>
      intro same
      simp only [TransactionRow.stored, Transaction.get, text] at same ⊢
      rw [same]
  | _ => exact fun same => congrArg Value.string (Option.some.inj same)

/-! ## A store to run updates on -/

/-- One hundred birr, paid at ten o'clock on 15 January 2024. -/
def sampleRow : TransactionRow where
  id := "receipt"
  telegramUserId := ⟨7, by decide⟩
  telegramName := ⟨"Abebe", by decide, by decide⟩
  amount := ⟨10000, by decide⟩
  transactionId := ⟨"FT24015ABC", by decide, by decide⟩
  timestamp := ⟨⟨1705312800000, by decide⟩, by decide⟩
  bankName := ⟨"CBE", by decide, by decide⟩
  confidence := ⟨1, by decide +kernel⟩
  isDuplicate := false
  imageUrl := none
  createdAt := epoch

/-- The bank of the sample row, as a log row has it. -/
def sampleBank : Text := ⟨"CBE", by decide⟩

/-- A log row of the sample row. -/
def sampleLog (fieldName : EditableTransactionField) (oldValue newValue : Option Text) :
    EditLog where
  transactionId := "receipt"
  fieldName := fieldName
  oldValue := oldValue
  newValue := newValue
  editedBy := ⟨"system", by decide, by decide⟩

/-- A store with one row. -/
def Db.single (row : TransactionRow) (logs : List EditLog)
    (known : ∀ log ∈ logs, log.transactionId = row.id) : Db where
  transactions := [row]
  editLogs := logs
  primaryKey := List.nodup_singleton _
  foreignKey := fun log member => List.mem_singleton.mpr (known log member)

def sampleDb : Db := .single sampleRow [] fun _ member => absurd member List.not_mem_nil

theorem find_sampleDb : sampleDb.find "receipt" = some sampleRow := by decide +kernel

/-- The body that gives nothing. -/
def emptyDto : UpdateTransactionDto :=
  ⟨.undefined, .undefined, .undefined, .undefined, .undefined, .undefined⟩

end BirrTrack.Transactions
