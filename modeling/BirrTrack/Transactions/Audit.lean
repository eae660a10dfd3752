import BirrTrack.Transactions.Update

/-! # The audit log of a single update

The edit log is meant to record exactly the fields whose stored values an update
changes, with their values before and after. It does so for the bodies that already
write their values the way the columns are read back, and for no others.
-/

namespace BirrTrack.Transactions

open Js Database

/-- The log rows written between two versions of a row are one for each field whose
stored value differs, with the field's two values. -/
structure AuditExact (before after : TransactionRow) (written : List EditLog) : Prop where
  count : ∀ field, (written.map EditLog.fieldName).count field =
    if before.stored field ≠ after.stored field then 1 else 0
  oldValue : ∀ log ∈ written,
    log.oldValue.map Text.value = readFieldValue (before.stored log.fieldName)
  newValue : ∀ log ∈ written,
    log.newValue.map Text.value = readFieldValue (after.stored log.fieldName)

/-- Between two stores, one row was audited exactly. -/
def AuditedExactly (db after : Db) (id editedBy : String) : Prop :=
  ∃ old new written, db.find id = some old ∧ after.find id = some new ∧
    after.editLogs = db.editLogs ++ written ∧
    (∀ log ∈ written, log.transactionId = id ∧
      Varchar.ofString 120 editedBy = some log.editedBy) ∧
    AuditExact old new written

/-- The given values are written the way the columns are read back: an amount with
two decimals, texts no longer than their columns, and a timestamp that is not null, in the
format of `toISOString`, and at a time when local time is whole minutes away from UTC. -/
structure InStoredForm (reader : DateReader) (dto : UpdateTransactionDto) : Prop where
  amount : ∀ v, dto.amount = .value v → v.toString = v.toFixed2
  texts : dto.Uncut
  timestampGiven : dto.timestamp ≠ .null
  timestamp : ∀ s t, dto.timestamp = .value s → newDate reader s = some t →
    t.toISOString = s ∧ 60000 ∣ reader.zoneOffset t.ms

variable {reader : DateReader} {db after : Db} {dto : UpdateTransactionDto} {editedBy : String}
  {row : TransactionRow} {change : RowChange} {isDateString : String → Prop}

/-- Every given value reads in the body as it reads in the row afterwards. -/
def ReadsAsStored (dto : UpdateTransactionDto) (after : TransactionRow) : Prop :=
  ∀ field, dto.get field ≠ .undefined →
    readFieldValue (dto.get field) = readFieldValue (after.stored field)

/-- The log has the body's texts, and a field changes in the log when the body reads unlike the
row: the audit is exact when the body reads as the row does afterwards. -/
theorem auditExact_iff (set : SetBy reader dto change) (nonneg : dto.NonnegAmount)
    {logs : List EditLog}
    (logged : logRows row.toEntity dto editedBy (changedFields row.toEntity dto) = some logs) :
    AuditExact row (row.set change) logs ↔ ReadsAsStored dto (row.set change) := by
  obtain ⟨names, each⟩ := logRows_spec logged
  refine ⟨?_, ?_⟩
  · intro exact field given
    by_cases same : readFieldValue (row.stored field) = readFieldValue (dto.get field)
    · have unlogged : field ∉ changedFields row.toEntity dto :=
        fun member => (mem_changedFields.mp member).2 same
      have count := exact.count field
      rw [names, List.count_eq_zero.mpr unlogged] at count
      split at count
      · cases count
      next unchanged => rw [← same, not_not.mp unchanged]
    · obtain ⟨log, member, rfl⟩ := List.mem_map.mp
        (names ▸ mem_changedFields.mpr ⟨given, same⟩ : field ∈ logs.map EditLog.fieldName)
      exact (each log member).2.2.1.symm.trans (exact.newValue log member)
  · intro reads
    refine ⟨?_, fun log member => (each log member).2.1, ?_⟩
    · intro field
      have changes : field ∈ changedFields row.toEntity dto ↔
          row.stored field ≠ (row.set change).stored field := by
        rw [mem_changedFields]
        by_cases given : dto.get field = .undefined
        · simp only [given, ne_eq, not_true_eq_false, false_and, false_iff, not_not]
          exact (stored_set_of_undefined set nonneg given).symm
        · rw [reads field given]
          simp only [ne_eq, given, not_false_eq_true, true_and]
          exact not_congr readFieldValue_stored
      rw [names, nodup_changedFields.count]
      simp only [changes]
    · intro log member
      have changed : log.fieldName ∈ changedFields row.toEntity dto :=
        names ▸ List.mem_map_of_mem member
      rw [(each log member).2.2.1]
      exact reads log.fieldName (mem_changedFields.mp changed).1

/-! ## The fields of a body in stored form -/

/-- An amount that is given is stored as its two decimals. -/
theorem stored_amount (set : SetBy reader dto change) (nonneg : dto.NonnegAmount) {v : Number}
    (value : dto.amount = .value v) : (row.set change).stored .amount = .string v.toFixed2 := by
  rw [stored_set set nonneg, givenValue, value]
  rfl

/-- An identifier that is given is stored whole exactly if it is not longer than the column. -/
theorem stored_transactionId (row : TransactionRow) (set : SetBy reader dto change) {s : String}
    (value : dto.transactionId = .value s) :
    ∃ kept : Varchar 128, (row.set change).stored .transactionId = .string kept.value ∧
      (kept.value = s ↔ s.length ≤ 128) := by
  obtain ⟨kept, sets, whole⟩ := Property.kept_of_column set.transactionId value
  refine ⟨kept, ?_, whole⟩
  rw [TransactionRow.stored, TransactionRow.set, sets]
  rfl

/-- So is a bank name. -/
theorem stored_bankName (row : TransactionRow) (set : SetBy reader dto change) {s : String}
    (value : dto.bankName = .value s) :
    ∃ kept : Varchar 120, (row.set change).stored .bankName = .string kept.value ∧
      (kept.value = s ↔ s.length ≤ 120) := by
  obtain ⟨kept, sets, whole⟩ := Property.kept_of_column set.bankName value
  refine ⟨kept, ?_, whole⟩
  rw [TransactionRow.stored, TransactionRow.set, sets]
  rfl

/-- A timestamp that is given is stored as the instant the driver sends for what `new Date` reads.
-/
theorem stored_timestamp (row : TransactionRow) (set : SetBy reader dto change) {s : String}
    (value : dto.timestamp = .value s) :
    ∃ (kept : Timestamptz) (t : TimeValue),
      (row.set change).stored .timestamp = .date kept.instant ∧ newDate reader s = some t ∧
        kept.instant.ms = sent reader t.ms := by
  obtain ⟨kept, t, sets, read, same⟩ := set.timestamp_of_value value
  refine ⟨kept, t, ?_, read, same⟩
  rw [TransactionRow.stored, TransactionRow.set, sets]
  rfl

/-- What is stored for a text is written as that text when the text is in the format of
`toISOString` and the driver sends its instant unshifted. -/
theorem toISOString_eq_iff {s : String} {kept t : TimeValue} (read : newDate reader s = some t)
    (same : kept.ms = sent reader t.ms) :
    kept.toISOString = s ↔ t.toISOString = s ∧ 60000 ∣ reader.zoneOffset t.ms := by
  rw [← sent_eq_self_iff, ← same]
  refine ⟨?_, ?_⟩
  · rintro rfl
    rw [newDate_toISOString] at read
    cases read
    exact ⟨rfl, rfl⟩
  · rintro ⟨text, unshifted⟩
    rw [TimeValue.ext unshifted]
    exact text

/-- A body that reads as the row it leaves is in stored form. -/
theorem ReadsAsStored.inStoredForm (set : SetBy reader dto change) (nonneg : dto.NonnegAmount)
    (reads : ReadsAsStored dto (row.set change)) : InStoredForm reader dto := by
  have value : ∀ {field text stored}, dto.get field = .string text →
      (row.set change).stored field = stored → some text = readFieldValue stored := by
    intro field text stored given holds
    have same := reads field (by rw [given]; exact Value.string_ne_undefined text)
    rwa [given, holds] at same
  refine ⟨?_, ⟨?_, ?_⟩, ?_, ?_⟩
  · intro v given
    have number : dto.get .amount = .number v := by rw [UpdateTransactionDto.get, given]; rfl
    have same := reads .amount (by rw [number]; exact Value.number_ne_undefined v)
    rw [number, stored_amount set nonneg given] at same
    exact Option.some.inj same
  · intro s given
    obtain ⟨kept, stored, whole⟩ := stored_transactionId row set given
    have text : dto.get .transactionId = .string s := by rw [UpdateTransactionDto.get, given]; rfl
    exact whole.mp (Option.some.inj (value text stored)).symm
  · intro s given
    obtain ⟨kept, stored, whole⟩ := stored_bankName row set given
    have text : dto.get .bankName = .string s := by rw [UpdateTransactionDto.get, given]; rfl
    exact whole.mp (Option.some.inj (value text stored)).symm
  · intro null
    have given : dto.get .timestamp = .null := by rw [UpdateTransactionDto.get, null]; rfl
    have stored : (row.set change).stored .timestamp = .date (sentEpoch reader).instant := by
      rw [stored_set set nonneg, givenValue, null]
      rfl
    have defined : dto.get .timestamp ≠ .undefined := by
      rw [given]
      intro undefined
      cases undefined
    have same := reads .timestamp defined
    rw [given, stored] at same
    cases same
  · intro s t given read
    obtain ⟨kept, t', stored, read', sentAs⟩ := stored_timestamp row set given
    cases read.symm.trans read'
    have text : dto.get .timestamp = .string s := by rw [UpdateTransactionDto.get, given]; rfl
    exact (toISOString_eq_iff read sentAs).mp (Option.some.inj (value text stored)).symm

/-- A body in stored form reads as the row it leaves. -/
theorem InStoredForm.readsAsStored (set : SetBy reader dto change) (nonneg : dto.NonnegAmount)
    (form : InStoredForm reader dto) : ReadsAsStored dto (row.set change) := by
  intro field given
  cases field with
  | amount =>
      rcases Property.given_of_column set.amount given with ⟨-, none⟩ | ⟨v, value⟩
      · cases none
      · rw [UpdateTransactionDto.get, value, stored_amount set nonneg value]
        exact congrArg some (form.amount v value)
  | transactionId =>
      rcases Property.given_of_column set.transactionId given with ⟨-, none⟩ | ⟨s, value⟩
      · cases none
      · obtain ⟨kept, stored, whole⟩ := stored_transactionId row set value
        rw [UpdateTransactionDto.get, value, stored]
        exact congrArg some (whole.mpr (form.texts.transactionId s value)).symm
  | timestamp =>
      rcases Property.given_of_column set.timestamp given with ⟨null, -⟩ | ⟨s, value⟩
      · exact absurd null form.timestampGiven
      · obtain ⟨kept, t, stored, read, same⟩ := stored_timestamp row set value
        rw [UpdateTransactionDto.get, value, stored]
        have text := (toISOString_eq_iff read same).mpr (form.timestamp s t value read)
        exact congrArg some text.symm
  | bankName =>
      rcases Property.given_of_column set.bankName given with ⟨-, none⟩ | ⟨s, value⟩
      · cases none
      · obtain ⟨kept, stored, whole⟩ := stored_bankName row set value
        rw [UpdateTransactionDto.get, value, stored]
        exact congrArg some (whole.mpr (form.texts.bankName s value)).symm
  | confidence =>
      rcases Property.given_of_column set.confidence given with ⟨-, none⟩ | ⟨n, value⟩
      · cases none
      · rw [stored_set set nonneg, UpdateTransactionDto.get, givenValue, value]
        rfl
  | imageUrl =>
      rw [stored_set set nonneg, UpdateTransactionDto.get, givenValue]
      rcases Property.given_of_column set.imageUrl given with ⟨null, -⟩ | ⟨s, value⟩
      · rw [null]
        rfl
      · rw [value]
        rfl

/-- An update that goes through audits its row exactly when the body gives its values
in stored form. -/
theorem update_auditedExactly_iff {id : String} {response : TransactionResponse}
    (valid : dto.Valid isDateString)
    (ran : Procedure.run (update reader id dto editedBy) db = (.ok response, after)) :
    AuditedExactly db after id editedBy ↔ InStoredForm reader dto := by
  obtain ⟨row, found⟩ := find_of_update_ok ran
  obtain ⟨logs, change, logged, sets, rows, appended⟩ :=
    (update_eq_ok found).mp ⟨response, ran⟩
  have set := changeOf_eq_some.mp sets
  have sameId : row.id = id := (Db.find_eq_some.mp found).2
  have nonneg := valid.nonnegAmount
  refine ⟨?_, ?_⟩
  · intro conditions
    obtain ⟨old, new, written, foundOld, foundNew, appended', -, exact⟩ := conditions
    cases found.symm.trans foundOld
    cases (find_of_updateRows found rows).symm.trans foundNew
    cases List.append_cancel_left (appended.symm.trans appended')
    exact ((auditExact_iff set nonneg logged).mp exact).inStoredForm set nonneg
  · intro form
    refine ⟨row, row.set change, logs, found, find_of_updateRows found rows, appended, ?_,
      (auditExact_iff set nonneg logged).mpr (form.readsAsStored set nonneg)⟩
    intro log member
    obtain ⟨transactionId, -, -, editor⟩ := (logRows_spec logged).2 log member
    exact ⟨transactionId.trans sameId, editor⟩

/-- An amount of one hundred, as JSON writes it. -/
def hundredDto : UpdateTransactionDto := { emptyDto with amount := .value ⟨100, by decide +kernel⟩ }

theorem hundredDto_valid (isDateString : String → Prop) : hundredDto.Valid isDateString where
  amount := ⟨Or.inl (by decide +kernel), by decide +kernel⟩
  transactionId := trivial
  timestamp := trivial
  bankName := trivial
  confidence := trivial
  imageUrl := trivial

/-- The store after the sample row was given the amount it already had: nothing but a
log row from `100.00` to `100`. -/
def hundredDb : Db :=
  .single sampleRow [sampleLog .amount (some ⟨"100.00", by decide⟩) (some ⟨"100", by decide⟩)]
    (List.forall_mem_singleton.mpr rfl)

theorem run_hundredDto : ∃ response,
    Procedure.run (update utcReader "receipt" hundredDto "system") sampleDb =
      (.ok response, hundredDb) := by
  refine (update_eq_ok find_sampleDb).mpr
    ⟨hundredDb.editLogs, { RowChange.nothing with amount := some ⟨10000, by decide⟩ }, ?_, ?_, rfl,
      rfl⟩
  · decide +kernel
  · decide +kernel

theorem hundredDto_auditedExactly_iff :
    AuditedExactly sampleDb hundredDb "receipt" "system" ↔ InStoredForm utcReader hundredDto := by
  obtain ⟨response, ran⟩ := run_hundredDto
  exact update_auditedExactly_iff (hundredDto_valid fun _ => True) ran

/-- An edit that changes nothing still leaves a log row. -/
theorem update_not_auditedExactly :
    ¬ ∀ (reader : DateReader) (isDateString : String → Prop) (db after : Db) (id : String)
      (dto : UpdateTransactionDto) (editedBy : String) (response : TransactionResponse),
      dto.Valid isDateString →
      Procedure.run (update reader id dto editedBy) db = (.ok response, after) →
      AuditedExactly db after id editedBy := by
  intro claim
  obtain ⟨response, ran⟩ := run_hundredDto
  obtain ⟨old, new, written, foundOld, foundNew, appended, -, exact⟩ :=
    claim utcReader (fun _ => True) sampleDb hundredDb "receipt" hundredDto "system" response
      (hundredDto_valid _) ran
  cases find_sampleDb.symm.trans foundOld
  cases (by decide +kernel : hundredDb.find "receipt" = some sampleRow).symm.trans foundNew
  have count := exact.count .amount
  rw [show written = hundredDb.editLogs from appended.symm] at count
  exact absurd count (by decide +kernel)

end BirrTrack.Transactions
