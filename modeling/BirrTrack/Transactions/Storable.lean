import BirrTrack.Js.DateTexts
import BirrTrack.Transactions.Update

/-! # When an update goes through

An update of an existing row fails only for a value that its column or the log cannot store, or
for an editor's name that is too long. `exists_update_ok_iff` says so in terms of the body and
the name.
-/

namespace BirrTrack.Transactions

open Js Database

variable {reader : DateReader} {db after : Db} {existing : Transaction}
  {dto : UpdateTransactionDto} {editedBy : String} {row : TransactionRow} {change : RowChange}

/-- A text that the code reads as a date, which the driver sends as an instant from 4714 BC on. -/
def DenotesInstant (reader : DateReader) (text : String) : Prop :=
  ∃ t, newDate reader text = some t ∧ -210866803200000 ≤ sent reader t.ms ∧
    sent reader t.ms ≤ 8640000000000000

/-- The instant that the driver sends for a wall-clock time is at that time in its zone: local time
is whole minutes away from UTC, or the server's clock shows the time then. -/
def SentInTime (reader : DateReader) (wall : ℤ) (zone : Zone) : Prop :=
  let ms := zone.toUTC reader wall
  match zone with
  | .server => sent reader ms + reader.zoneOffset (sent reader ms) = wall
  | _ => 60000 ∣ reader.zoneOffset ms

/-- A date is sent as the text of it denotes: in the date-time string format if its day is one of
the calendar and its time is sent as it is, and in other formats if the engine's fallback reads an
instant that the text still denotes when it is sent. -/
def SentAsWritten (reader : DateReader) (text : String) : Prop :=
  ∀ t, newDate reader text = some t →
    match isoDateTime text.toList with
    | some ((wall, zone), []) => onCalendar text.toList = true ∧ SentInTime reader wall zone
    | _ => Iso8601.Denotes reader.zoneOffset text (sent reader t.ms)

/-- So it is at that time in its zone. -/
theorem sentInTime_iff {wall : ℤ} {zone : Zone} :
    SentInTime reader wall zone ↔
      zone.IsAt reader.zoneOffset wall (sent reader (zone.toUTC reader wall)) := by
  cases zone with
  | utc => exact sent_eq_self_iff.symm
  | server => exact Iff.rfl
  | offset minutes => exact sent_eq_self_iff.symm

/-- The text of a date denotes the instant that is sent for it exactly if it is sent as written. -/
theorem sentAsWritten_iff {text : String} :
    SentAsWritten reader text ↔ ∀ t, newDate reader text = some t →
      Iso8601.Denotes reader.zoneOffset text (sent reader t.ms) := by
  refine forall_congr' fun t => imp_congr_right fun read => ?_
  split
  next wall zone format =>
    rw [newDate, format] at read
    rw [denotes_iff format, timeClip_eq_some read, sentInTime_iff]
  next => exact Iff.rfl

/-- A property for a `varchar(limit)` column that takes no null. -/
def Property.FitsVarchar (limit : ℕ) (field : Property String) : Prop :=
  field ≠ .null ∧ ∀ s, field = .value s → Database.FitsVarchar limit s

/-- Every given value can be stored in its column and in the log. -/
structure Storable (reader : DateReader) (dto : UpdateTransactionDto) : Prop where
  amount : dto.amount ≠ .null ∧ ∀ v, dto.amount = .value v → Decimal.hundredths v.val < 10 ^ 14
  transactionId : dto.transactionId.FitsVarchar 128
  timestamp : ∀ s, dto.timestamp = .value s →
    Char.ofNat 0 ∉ s.toList ∧ DenotesInstant reader s
  bankName : dto.bankName.FitsVarchar 120
  confidence : dto.confidence ≠ .null
  imageUrl : ∀ s, dto.imageUrl = .value s → Char.ofNat 0 ∉ s.toList

/-- A text is stored exactly if it fits the column. -/
theorem isSome_varchar {limit : ℕ} {text : String} :
    (Varchar.ofString limit text).isSome = true ↔ FitsVarchar limit text := by
  unfold Varchar.ofString
  split
  next fits => exact iff_of_true rfl fits
  next outside => exact iff_of_false Bool.false_ne_true outside

theorem isSome_text {text : String} :
    (Text.ofString text).isSome = true ↔ Char.ofNat 0 ∉ text.toList := by
  unfold Text.ofString
  split <;> simp_all

/-- A timestamp is stored exactly if it denotes an instant of the column. -/
theorem isSome_timestamptz {text : String} :
    (Timestamptz.ofDate reader (newDate reader text)).isSome = true ↔
      DenotesInstant reader text := by
  rw [Option.isSome_iff_exists]
  simp only [Timestamptz.ofDate_eq_some]
  refine ⟨?_, ?_⟩
  · intro stored
    obtain ⟨instant, t, read, same⟩ := stored
    exact ⟨t, read, same ▸ instant.notBefore, same ▸ (abs_le.mp instant.instant.inRange).2⟩
  · intro denotes
    obtain ⟨t, read, lower, upper⟩ := denotes
    exact ⟨⟨⟨sent reader t.ms, abs_le.mpr ⟨by omega, upper⟩⟩, lower⟩, t, read, rfl⟩

theorem isSome_toFixed2 {v : Number} (nonneg : 0 ≤ v.val) :
    (Numeric.ofText v.toFixed2).isSome = true ↔ Decimal.hundredths v.val < 10 ^ 14 := by
  simp only [Numeric.ofText_toFixed2 nonneg, Numeric.ofCents,
    abs_of_nonneg (Decimal.hundredths_nonneg nonneg)]
  split
  next fits => exact iff_of_true rfl fits
  next overflows => exact iff_of_false Bool.false_ne_true overflows

theorem Property.isSome_column {α β : Type} {field : Property α} {null : Option β}
    {convert : α → Option β} :
    (field.column null convert).isSome = true ↔
      (field = .null → null.isSome = true) ∧ ∀ a, field = .value a → (convert a).isSome = true := by
  cases field <;> simp [Property.column]

theorem isSome_changeOf :
    (changeOf reader dto).isSome = true ↔
      (dto.amount.column none fun v => Numeric.ofText v.toFixed2).isSome = true ∧
        (dto.transactionId.column none (Varchar.ofString 128)).isSome = true ∧
        (dto.timestamp.column (some (sentEpoch reader)) fun s =>
          Timestamptz.ofDate reader (newDate reader s)).isSome = true ∧
        (dto.bankName.column none (Varchar.ofString 120)).isSome = true ∧
        (dto.confidence.column none some).isSome = true ∧
        (dto.imageUrl.column (some none) fun s => (Text.ofString s).map some).isSome = true := by
  simp only [Option.isSome_iff_exists]
  refine ⟨?_, ?_⟩
  · intro conditions
    obtain ⟨change, sets⟩ := conditions
    have set := changeOf_eq_some.mp sets
    exact ⟨⟨_, set.amount⟩, ⟨_, set.transactionId⟩, ⟨_, set.timestamp⟩, ⟨_, set.bankName⟩,
      ⟨_, set.confidence⟩, ⟨_, set.imageUrl⟩⟩
  · rintro ⟨⟨amount, first⟩, ⟨transactionId, second⟩, ⟨timestamp, third⟩, ⟨bankName, fourth⟩,
      ⟨confidence, fifth⟩, ⟨imageUrl, sixth⟩⟩
    exact ⟨⟨amount, transactionId, timestamp, bankName, confidence, imageUrl⟩,
      changeOf_eq_some.mpr ⟨first, second, third, fourth, fifth, sixth⟩⟩

/-- The texts of a stored row fit the log. -/
theorem isSome_nullableText_stored (row : TransactionRow) (field : EditableTransactionField) :
    (nullableText (readFieldValue (row.stored field))).isSome = true := by
  have text : ∀ {s : String}, Char.ofNat 0 ∉ s.toList →
      (nullableText (some s)).isSome = true := by
    intro s noZero
    rw [nullableText, Option.isSome_map, isSome_text]
    exact noZero
  cases field with
  | amount => exact text row.amount.zero_not_mem_text
  | transactionId => exact text row.transactionId.noZero
  | timestamp => exact text (not_mem_toISOString _ (by decide) (by decide))
  | bankName => exact text row.bankName.noZero
  | confidence => exact text (Number.not_mem_toString _ (by decide) (by decide))
  | imageUrl =>
      cases url : row.imageUrl with
      | none => rw [TransactionRow.stored, TransactionRow.toEntity, Transaction.get, url]; rfl
      | some value =>
          rw [TransactionRow.stored, TransactionRow.toEntity, Transaction.get, url]
          exact text value.noZero

/-- The texts of a body fit the log when its values can be stored. -/
theorem Storable.isSome_nullableText (storable : Storable reader dto)
    (field : EditableTransactionField) :
    (nullableText (readFieldValue (dto.get field))).isSome = true := by
  have text : ∀ {s : String}, Char.ofNat 0 ∉ s.toList →
      (nullableText (some s)).isSome = true := by
    intro s noZero
    rw [nullableText, Option.isSome_map, isSome_text]
    exact noZero
  have property : ∀ {α : Type} {value : α → Value} (given : Property α),
      (∀ a, given = .value a → (nullableText (readFieldValue (value a))).isSome = true) →
      (nullableText (readFieldValue (given.toValue value))).isSome = true := by
    intro α value given fits
    cases given with
    | undefined => rfl
    | null => rfl
    | value a => exact fits a rfl
  have number : ∀ n : Number, (nullableText (readFieldValue (.number n))).isSome = true :=
    fun n => text (Number.not_mem_toString n (by decide) (by decide))
  cases field with
  | amount => exact property _ fun v _ => number v
  | transactionId => exact property _ fun s given => text (storable.transactionId.2 s given).1
  | timestamp => exact property _ fun s given => text (storable.timestamp s given).1
  | bankName => exact property _ fun s given => text (storable.bankName.2 s given).1
  | confidence => exact property _ fun n _ => number n
  | imageUrl => exact property _ fun s given => text (storable.imageUrl s given)

/-- The log rows are stored exactly if each of them is. -/
theorem isSome_logRows {fields : List EditableTransactionField} :
    (logRows existing dto editedBy fields).isSome = true ↔
      ∀ field ∈ fields, ((editLog existing dto editedBy field).toRow).isSome = true := by
  induction fields with
  | nil => simp [logRows]
  | cons field fields ih =>
      rw [logRows_cons, List.forall_mem_cons, ← ih]
      cases (editLog existing dto editedBy field).toRow with
      | none => simp
      | some log => simp

theorem isSome_toRow {log : NewEditLog} (old : (nullableText log.oldValue).isSome = true) :
    log.toRow.isSome = true ↔
      (nullableText log.newValue).isSome = true ∧ FitsVarchar 120 log.editedBy := by
  obtain ⟨oldValue, converted⟩ := Option.isSome_iff_exists.mp old
  rw [← isSome_varchar, NewEditLog.toRow, converted]
  cases nullableText log.newValue <;> cases Varchar.ofString 120 log.editedBy <;> simp

/-- Every given value can be stored when the SET clause can and a given timestamp has
no zero byte. -/
theorem storable_iff (nonneg : dto.NonnegAmount) :
    Storable reader dto ↔ (changeOf reader dto).isSome = true ∧
      ∀ s, dto.timestamp = .value s → Char.ofNat 0 ∉ s.toList := by
  have amount : (dto.amount.column none fun v => Numeric.ofText v.toFixed2).isSome = true ↔
      dto.amount ≠ .null ∧ ∀ v, dto.amount = .value v → Decimal.hundredths v.val < 10 ^ 14 := by
    rw [Property.isSome_column]
    apply and_congr
    · exact Iff.intro (fun none null => nomatch none null) fun none null => absurd null none
    · exact forall_congr' fun v => forall_congr' fun given => isSome_toFixed2 (nonneg v given)
  have varchar : ∀ {limit : ℕ} {field : Property String},
      (field.column none (Varchar.ofString limit)).isSome = true ↔ field.FitsVarchar limit := by
    intro limit field
    rw [Property.isSome_column]
    apply and_congr
    · exact Iff.intro (fun none null => nomatch none null) fun none null => absurd null none
    · exact forall_congr' fun s => forall_congr' fun given => isSome_varchar
  have timestamp : (dto.timestamp.column (some (sentEpoch reader)) fun s =>
      Timestamptz.ofDate reader (newDate reader s)).isSome = true ↔
      ∀ s, dto.timestamp = .value s → DenotesInstant reader s := by
    rw [Property.isSome_column]
    refine (and_iff_right fun _ => rfl).trans ?_
    exact forall_congr' fun s => forall_congr' fun given => isSome_timestamptz
  have confidence : (dto.confidence.column none some).isSome = true ↔ dto.confidence ≠ .null := by
    rw [Property.isSome_column]
    refine (and_iff_left fun _ _ => rfl).trans ?_
    exact Iff.intro (fun none null => nomatch none null) fun none null => absurd null none
  have imageUrl : (dto.imageUrl.column (some none) fun s =>
      (Text.ofString s).map some).isSome = true ↔
      ∀ s, dto.imageUrl = .value s → Char.ofNat 0 ∉ s.toList := by
    rw [Property.isSome_column]
    refine (and_iff_right fun _ => rfl).trans ?_
    refine forall_congr' fun s => forall_congr' fun given => ?_
    rw [Option.isSome_map]
    exact isSome_text
  rw [isSome_changeOf, amount, varchar, timestamp, varchar, confidence, imageUrl]
  refine ⟨?_, ?_⟩
  · intro conditions
    obtain ⟨first, second, third, fourth, fifth, sixth⟩ := conditions
    exact ⟨⟨first, second, fun s given => (third s given).2, fourth, fifth, sixth⟩,
      fun s given => (third s given).1⟩
  · intro conditions
    obtain ⟨⟨first, second, third, fourth, fifth, sixth⟩, noZero⟩ := conditions
    exact ⟨first, second, fun s given => ⟨noZero s given, third s given⟩, fourth, fifth, sixth⟩

/-- The log rows and the SET clause can be stored when every given value can and, unless
nothing is logged, the editor's name fits. -/
theorem isSome_logRows_changedFields (nonneg : dto.NonnegAmount) :
    (changeOf reader dto).isSome = true ∧
        (logRows row.toEntity dto editedBy (changedFields row.toEntity dto)).isSome = true ↔
      Storable reader dto ∧
        (changedFields row.toEntity dto = [] ∨ FitsVarchar 120 editedBy) := by
  have logged : ∀ field, ((editLog row.toEntity dto editedBy field).toRow).isSome = true ↔
      (nullableText (readFieldValue (dto.get field))).isSome = true ∧ FitsVarchar 120 editedBy :=
    fun field => isSome_toRow (isSome_nullableText_stored row field)
  rw [isSome_logRows]
  refine ⟨?_, ?_⟩
  · intro conditions
    obtain ⟨sets, logs⟩ := conditions
    refine ⟨(storable_iff nonneg).mpr ⟨sets, ?_⟩, ?_⟩
    · intro s given
      have text : readFieldValue (dto.get .timestamp) = some s := by
        rw [UpdateTransactionDto.get, given]
        rfl
      by_cases same : readFieldValue (row.stored .timestamp) = readFieldValue (dto.get .timestamp)
      · rw [text] at same
        rw [← Option.some.inj same]
        exact not_mem_toISOString _ (by decide) (by decide)
      · have member : EditableTransactionField.timestamp ∈ changedFields row.toEntity dto := by
          refine mem_changedFields.mpr ⟨?_, same⟩
          rw [UpdateTransactionDto.get, given]
          exact Value.string_ne_undefined s
        have fits := ((logged .timestamp).mp (logs .timestamp member)).1
        rw [text, nullableText, Option.isSome_map, isSome_text] at fits
        exact fits
    · cases changed : changedFields row.toEntity dto with
      | nil => exact Or.inl rfl
      | cons field fields =>
          right
          exact ((logged field).mp (logs field (changed ▸ List.mem_cons_self))).2
  · intro conditions
    obtain ⟨storable, editor⟩ := conditions
    refine ⟨((storable_iff nonneg).mp storable).1, ?_⟩
    intro field member
    rcases editor with none | fits
    · rw [none] at member
      exact absurd member List.not_mem_nil
    · exact (logged field).mpr ⟨storable.isSome_nullableText field, fits⟩

/-- From any earlier version of the row, an update goes through when every given value
can be stored and, unless nothing is logged, the editor's name fits. -/
theorem exists_updateExisting_ok_iff {snapshot : TransactionRow}
    (found : db.find snapshot.id = some row) (nonneg : dto.NonnegAmount) :
    (∃ after response,
        Procedure.run (updateExisting reader snapshot.toEntity dto editedBy) db =
          (.ok response, after)) ↔
      Storable reader dto ∧
        (changedFields snapshot.toEntity dto = [] ∨ FitsVarchar 120 editedBy) := by
  rw [← isSome_logRows_changedFields nonneg, Option.isSome_iff_exists, Option.isSome_iff_exists]
  refine ⟨?_, ?_⟩
  · intro conditions
    obtain ⟨after, ran⟩ := conditions
    obtain ⟨logs, change, logged, sets, -⟩ := (updateExisting_eq_ok found).mp ran
    exact ⟨⟨change, sets⟩, ⟨logs, logged⟩⟩
  · intro conditions
    obtain ⟨⟨change, sets⟩, ⟨logs, logged⟩⟩ := conditions
    obtain ⟨member, sameId⟩ := Db.find_eq_some.mp found
    let after : Db := {
      transactions := Db.updateRows db.transactions snapshot.id change
      editLogs := db.editLogs ++ logs
      primaryKey := (db.update snapshot.id change).primaryKey
      foreignKey := by
        intro log written
        rw [Db.map_id_updateRows]
        rcases List.mem_append.mp written with earlier | new
        · exact db.foreignKey log earlier
        · rw [((logRows_spec logged).2 log new).1]
          exact List.mem_map.mpr ⟨row, member, sameId⟩ }
    exact ⟨after, (updateExisting_eq_ok found).mpr ⟨logs, change, logged, sets, rfl, rfl⟩⟩

/-- An update of an existing row goes through when every given value can be stored and,
unless nothing is logged, the editor's name fits. -/
theorem exists_update_ok_iff {id : String} (found : db.find id = some row)
    (nonneg : dto.NonnegAmount) :
    (∃ after response, Procedure.run (update reader id dto editedBy) db = (.ok response, after)) ↔
      Storable reader dto ∧
        (changedFields row.toEntity dto = [] ∨ FitsVarchar 120 editedBy) := by
  have sameId : row.id = id := (Db.find_eq_some.mp found).2
  simp only [run_update_of_find found]
  exact exists_updateExisting_ok_iff (sameId.symm ▸ found) nonneg

end BirrTrack.Transactions
