import BirrTrack.Js.Hundredths
import BirrTrack.Transactions.Validation

/-! # Sending values back

A client that has read a transaction can give its values back, now or after later edits. Where the
validators take them (`GoesBack.valid`), the row then has the values that were read
(`changeOf_sentBack`). Given back at once they change no row, though the log may get an entry for
the amount (`update_readBack`).
-/

namespace BirrTrack.Transactions

open Js Database

variable {reader : DateReader} {db : Db} {row : TransactionRow} {editedBy : String}
  {isDateString : String → Prop}

/-- The editable values of a response as its JSON has them, where a date is its `toISOString`. -/
def TransactionResponse.sentBack (response : TransactionResponse) : UpdateTransactionDto where
  amount := response.amount.elim .null .value
  transactionId := .value response.item.transactionId
  timestamp := .value response.item.timestamp.toISOString
  bankName := .value response.item.bankName
  confidence := .value response.item.confidence
  imageUrl := response.item.imageUrl.elim .null .value

/-- What a client gives back that has read the row. -/
def TransactionRow.sentBack (row : TransactionRow) : UpdateTransactionDto :=
  (toResponse row.toEntity).sentBack

/-- A row whose values the validators take back, at a time that the driver sends as it is. -/
structure TransactionRow.GoesBack (reader : DateReader) (row : TransactionRow) : Prop where
  amount : 0 ≤ row.amount.cents
  transactionId : HasLength 1 128 row.transactionId.value
  year : 0 ≤ row.timestamp.instant.getUTCFullYear ∧ row.timestamp.instant.getUTCFullYear ≤ 9999
  wholeMinutes : 60000 ∣ reader.zoneOffset row.timestamp.instant.ms
  bankName : HasLength 1 120 row.bankName.value
  confidence : 0 ≤ row.confidence.val ∧ row.confidence.val ≤ 1

/-- The change that sets every column to the row's. -/
def TransactionRow.columns (row : TransactionRow) : RowChange :=
  ⟨some row.amount, some row.transactionId, some row.timestamp, some row.bankName,
    some row.confidence, some row.imageUrl⟩

/-- All that an edit may have changed is set back. -/
theorem TransactionRow.set_columns {other : TransactionRow} (same : other.origin = row.origin) :
    other.set row.columns = row := by
  obtain ⟨id, user, name, duplicate, created⟩ := Origin.mk.inj same
  exact TransactionRow.ext id user name rfl rfl rfl rfl rfl duplicate rfl created

/-! ## Columns -/

/-- The Number of an amount that the validators take is written back as that amount. -/
theorem exists_amount (nonneg : 0 ≤ row.amount.cents) :
    ∃ v, (toResponse row.toEntity).amount = some v ∧ v.toFixed2 = row.amount.text ∧
      (v.TwoDecimals ∧ 0 ≤ v.val) ∧
        (v.toString = row.amount.text ↔ ¬ 10 ∣ row.amount.cents) := by
  obtain ⟨n, cents⟩ := Int.eq_ofNat_of_zero_le nonneg
  have small : n < 10 ^ 14 := by
    have bounded := (abs_lt.mp row.amount.bounded).2
    rw [cents] at bounded
    exact_mod_cast bounded
  have text : row.amount.text = String.ofList (Decimal.fixed2 n) := by
    rw [Numeric.text, cents, centsText, if_neg (by omega), Int.natAbs_natCast]
  have range : |(n : ℤ)| < 10 ^ 15 := by
    rw [Nat.abs_cast]
    exact_mod_cast small.trans (by norm_num)
  obtain ⟨v, found, -⟩ := Number.exists_ofRat range
  rw [Int.cast_natCast] at found
  refine ⟨v, ?_, ?_, Number.twoDecimals_of_ofRat found, ?_⟩
  · rw [toResponse, TransactionRow.toEntity, Number.ofText, Numeric.literal_text, Option.bind_some,
      cents]
    exact found
  · rw [Number.toFixed2_of_ofRat small found, text]
  · rw [text, Number.toString_eq_fixed2_iff small found, cents]
    exact not_congr (by exact_mod_cast Iff.rfl)

/-- The validators take the values of such a row. -/
theorem TransactionRow.GoesBack.valid (validator : TakesIsoDates isDateString)
    (back : row.GoesBack reader) : row.sentBack.Valid isDateString := by
  obtain ⟨v, amount, -, checked, -⟩ := exists_amount back.amount
  refine ⟨?_, back.transactionId, validator.toISOString _ back.year.1 back.year.2,
    back.bankName, back.confidence, ?_⟩
  · rw [TransactionRow.sentBack, TransactionResponse.sentBack, amount]
    exact checked
  · cases row.sentBack.imageUrl <;> trivial

/-- The values that were read of a row set its columns to what they were. -/
theorem changeOf_sentBack (back : row.GoesBack reader) :
    changeOf reader row.sentBack = some row.columns := by
  obtain ⟨v, amount, text, -⟩ := exists_amount back.amount
  refine changeOf_eq_some.mpr ⟨?_, ?_, ?_, ?_, rfl, ?_⟩
  · rw [TransactionRow.sentBack, TransactionResponse.sentBack, amount]
    exact congrArg (Option.map some) (text ▸ Numeric.ofText_text row.amount)
  · exact congrArg (Option.map some) (Varchar.ofString_value row.transactionId)
  · change (Timestamptz.ofDate reader
      (newDate reader row.timestamp.instant.toISOString)).map some = _
    rw [newDate_toISOString, Timestamptz.ofDate_instant back.wholeMinutes]
    rfl
  · exact congrArg (Option.map some) (Varchar.ofString_value row.bankName)
  · rw [TransactionRow.sentBack, TransactionResponse.sentBack, toResponse, TransactionRow.toEntity,
      TransactionRow.columns]
    cases row.imageUrl with
    | none => rfl
    | some url =>
        have stored := congrArg (Option.map some) (Text.ofString_value url)
        exact congrArg (Option.map some) stored

theorem nonnegAmount_sentBack (nonneg : 0 ≤ row.amount.cents) : row.sentBack.NonnegAmount := by
  obtain ⟨v, amount, -, checked, -⟩ := exists_amount nonneg
  intro other given
  rw [TransactionRow.sentBack, TransactionResponse.sentBack, amount] at given
  cases given
  exact checked.2

/-- What was read of a row can be stored again. -/
theorem storable_sentBack (back : row.GoesBack reader) : Storable reader row.sentBack := by
  refine (storable_iff (nonnegAmount_sentBack back.amount)).mpr ⟨?_, ?_⟩
  · rw [changeOf_sentBack back]
    rfl
  · intro s given
    cases given
    exact not_mem_toISOString _ (by decide) (by decide)

/-! ## The log -/

/-- Of the values that were just read only an amount may look changed, when it ends in a zero. -/
theorem changedFields_sentBack (nonneg : 0 ≤ row.amount.cents) :
    changedFields row.toEntity row.sentBack =
      if 10 ∣ row.amount.cents then [.amount] else [] := by
  obtain ⟨v, amount, -, -, same⟩ := exists_amount nonneg
  have given : getUpdateFields row.sentBack = candidates := by
    refine List.filter_eq_self.mpr fun field _ => decide_eq_true ?_
    rw [TransactionRow.sentBack, TransactionResponse.sentBack, amount]
    cases field with
    | imageUrl => cases (toResponse row.toEntity).item.imageUrl <;> nofun
    | _ => nofun
  have differs : ∀ field : EditableTransactionField,
      readFieldValue (row.toEntity.get field) ≠ readFieldValue (row.sentBack.get field) ↔
        field = .amount ∧ 10 ∣ row.amount.cents := by
    intro field
    rw [TransactionRow.sentBack, TransactionResponse.sentBack, amount]
    cases field with
    | amount =>
        refine (not_congr ?_).trans ((not_congr same).trans (by simp))
        exact ⟨fun texts => (Option.some.inj texts).symm, fun texts => congrArg some texts.symm⟩
    | imageUrl =>
        refine iff_of_false (fun differs => differs ?_) fun both => absurd both.1 (by decide)
        rw [toResponse, TransactionRow.toEntity]
        cases row.imageUrl <;> rfl
    | _ => exact iff_of_false (fun differs => differs rfl) fun both => absurd both.1 (by decide)
  rw [changedFields, given]
  split
  next ten =>
    have only : ∀ field ∈ candidates, decide (readFieldValue (row.toEntity.get field) ≠
        readFieldValue (row.sentBack.get field)) = decide (field = .amount) :=
      fun field _ => decide_eq_decide.mpr ((differs field).trans (and_iff_left ten))
    rw [List.filter_congr only]
    rfl
  next other =>
    refine List.filter_eq_nil_iff.mpr fun field _ => ?_
    rw [decide_eq_true_eq, differs]
    exact fun both => other both.2

theorem getUpdateFields_sentBack (row : TransactionRow) : getUpdateFields row.sentBack ≠ [] := by
  intro none
  have given : EditableTransactionField.bankName ∈ getUpdateFields row.sentBack :=
    mem_getUpdateFields.mpr (Value.string_ne_undefined _)
  rw [none] at given
  exact List.not_mem_nil given

/-- An update answers with the row as it has changed it. -/
theorem updateExisting_answers {existing : Transaction} {dto : UpdateTransactionDto} {after : Db}
    {response : TransactionResponse} (found : db.find existing.id = some row)
    (given : getUpdateFields dto ≠ [])
    (ran : Procedure.run (updateExisting reader existing dto editedBy) db =
      (.ok response, after)) :
    ∃ logs change, logRows existing dto editedBy (changedFields existing dto) = some logs ∧
      changeOf reader dto = some change ∧
      after.transactions = Db.updateRows db.transactions existing.id change ∧
      after.editLogs = db.editLogs ++ logs ∧ response = toResponse (row.set change).toEntity := by
  rw [updateExisting, if_neg given] at ran
  obtain ⟨saved, middle, committed, responded⟩ := Procedure.run_bind_eq_ok.mp ran
  cases responded
  obtain ⟨logs, change, logged, sets, rows, appended, rfl⟩ :=
    (commitUpdate_eq_ok found).mp committed
  exact ⟨logs, change, logged, sets, rows, appended, rfl⟩

/-- Where the rows of an id are later versions of one row, setting its columns sets it back. -/
theorem updateRows_columns {rows : List TransactionRow}
    (versions : ∀ other ∈ rows, other.id = row.id → other.origin = row.origin) :
    Db.updateRows rows row.id row.columns =
      rows.map fun other => if other.id = row.id then row else other := by
  refine List.map_congr_left fun other member => ?_
  by_cases same : other.id = row.id
  · simp only [same, ↓reduceIte, TransactionRow.set_columns (versions other member same)]
  · simp only [same, ↓reduceIte]

theorem eq_of_find (found : db.find row.id = some row) {other : TransactionRow}
    (member : other ∈ db.transactions) (same : other.id = row.id) : other = row :=
  Option.some.inj ((Db.find_eq_some.mpr ⟨member, same⟩).symm.trans found)

/-- Values that are given back at once pass the validators, leave every row as it is and are
answered as they were read; an amount that ends in a zero is logged as a change. -/
theorem update_readBack {id : String} (validator : TakesIsoDates isDateString)
    (found : db.find id = some row) (back : row.GoesBack reader)
    (editor : 10 ∣ row.amount.cents → FitsVarchar 120 editedBy) :
    row.sentBack.Valid isDateString ∧
      ∃ after logs, (update reader id row.sentBack editedBy).run db =
          (.ok (toResponse row.toEntity), after) ∧
        after.transactions = db.transactions ∧ after.editLogs = db.editLogs ++ logs ∧
        logs.map EditLog.fieldName = if 10 ∣ row.amount.cents then [.amount] else [] := by
  refine ⟨back.valid validator, ?_⟩
  have sameId : row.id = id := (Db.find_eq_some.mp found).2
  subst sameId
  have fits : changedFields row.toEntity row.sentBack = [] ∨ FitsVarchar 120 editedBy := by
    rw [changedFields_sentBack back.amount]
    split
    next ten => exact Or.inr (editor ten)
    next => exact Or.inl rfl
  obtain ⟨after, response, ran⟩ :=
    (exists_update_ok_iff found (nonnegAmount_sentBack back.amount)).mpr
      ⟨storable_sentBack back, fits⟩
  rw [run_update_of_find found] at ran ⊢
  obtain ⟨logs, change, logged, sets, rows, appended, rfl⟩ :=
    updateExisting_answers found (getUpdateFields_sentBack row) ran
  rw [changeOf_sentBack back] at sets
  cases sets
  refine ⟨after, logs, ?_, ?_, appended, ?_⟩
  · rw [ran, TransactionRow.set_columns rfl]
  · have only : ∀ other ∈ db.transactions, (if other.id = row.id then row else other) = other := by
      intro other member
      split
      next same => exact (eq_of_find found member same).symm
      next => rfl
    refine (rows.trans (updateRows_columns fun other member same => ?_)).trans ?_
    · rw [eq_of_find found member same]
    · exact (List.map_congr_left only).trans (List.map_id' _)
  · rw [(logRows_spec logged).1, changedFields_sentBack back.amount]

theorem goesBack_sampleRow : sampleRow.GoesBack utcReader where
  amount := by decide
  transactionId := by decide
  year := by decide +kernel
  wholeMinutes := dvd_zero _
  bankName := by decide
  confidence := by decide +kernel

/-- One hundred birr that are given back unchanged are logged as a change. -/
theorem sampleDb_readBack : sampleRow.sentBack.Valid isIsoText ∧ ∃ after logs,
    (update utcReader "receipt" sampleRow.sentBack "system").run sampleDb =
        (.ok (toResponse sampleRow.toEntity), after) ∧
      after.transactions = sampleDb.transactions ∧ after.editLogs = sampleDb.editLogs ++ logs ∧
      logs.map EditLog.fieldName = if 10 ∣ sampleRow.amount.cents then [.amount] else [] :=
  update_readBack takesIsoDates_isIsoText find_sampleDb goesBack_sampleRow fun _ =>
    ⟨by decide, by decide⟩

end BirrTrack.Transactions
