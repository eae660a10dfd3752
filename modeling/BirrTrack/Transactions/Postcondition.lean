import BirrTrack.Transactions.Storable

/-! # What an update leaves behind

An update is meant to store the given values, to leave alone what is not given, and to
leave everything alone when it throws. It does so but for a null timestamp, which overwrites
the stored one with the epoch, for texts that their columns cut, and for timestamps that
are read or sent as another instant than the one that ISO 8601 gives them.
-/

namespace BirrTrack.Transactions

open Js Database

/-- What a property may do to its column: nothing when it is undefined, set it to null
or do nothing when it is null, and store its value otherwise. -/
def Property.Applied {α β : Type} (isNull : β → Prop) (holds : α → β → Prop) (old new : β) :
    Property α → Prop
  | undefined => new = old
  | null => isNull new ∨ new = old
  | value a => holds a new

/-- A row after an update with a body: the given values in stored form, and all else as
it was. -/
structure Applied (reader : DateReader) (dto : UpdateTransactionDto) (old new : TransactionRow) :
    Prop where
  amount : dto.amount.Applied (fun _ => False)
    (fun v n => n.text = v.toFixed2 ∧
      Decimal.literal v.toString.toList = some ((n.cents : ℚ) / 100))
    old.amount new.amount
  transactionId : dto.transactionId.Applied (fun _ => False) (fun s v => v.value = s)
    old.transactionId new.transactionId
  timestamp : dto.timestamp.Applied (fun _ => False)
    (fun s t => Iso8601.Denotes reader.zoneOffset s t.instant.ms) old.timestamp new.timestamp
  bankName : dto.bankName.Applied (fun _ => False) (fun s v => v.value = s)
    old.bankName new.bankName
  confidence : dto.confidence.Applied (fun _ => False) (fun n m => m = n)
    old.confidence new.confidence
  imageUrl : dto.imageUrl.Applied (fun url => url = none)
    (fun s url => url.map Text.value = some s) old.imageUrl new.imageUrl
  id : new.id = old.id
  telegramUserId : new.telegramUserId = old.telegramUserId
  telegramName : new.telegramName = old.telegramName
  isDuplicate : new.isDuplicate = old.isDuplicate
  createdAt : new.createdAt = old.createdAt

/-- The outcome of an update: the body is applied to its row and to no other, or
nothing is written at all. -/
def Outcome (reader : DateReader) (dto : UpdateTransactionDto) (id : String) (db : Db) :
    Except Failure TransactionResponse × Db → Prop
  | (.ok _, after) => ∃ old new, db.find id = some old ∧ Applied reader dto old new ∧
      after.transactions = db.transactions.map fun row => if row.id = id then new else row
  | (.error _, after) => after = db

variable {reader : DateReader} {db after : Db} {dto : UpdateTransactionDto} {editedBy id : String}
  {row : TransactionRow} {change : RowChange} {isDateString : String → Prop}

theorem Property.applied_column {α β : Type} {field : Property α} {null : Option β}
    {convert : α → Option β} {set : Option β} {old : β} {isNull : β → Prop} {holds : α → β → Prop}
    (sets : field.column null convert = some set)
    (onNull : ∀ b, field = .null → null = some b → isNull b ∨ b = old)
    (onValue : ∀ a b, field = .value a → convert a = some b → holds a b) :
    field.Applied isNull holds old (set.getD old) := by
  cases field with
  | undefined =>
      cases sets
      rfl
  | null =>
      obtain ⟨b, kept, rfl⟩ := Option.map_eq_some_iff.mp sets
      exact onNull b rfl kept
  | value a =>
      obtain ⟨b, kept, rfl⟩ := Option.map_eq_some_iff.mp sets
      exact onValue a b rfl kept

/-- The body's values are stored as they are given: no null timestamp unless the row is at the
epoch already, no text that its column cuts, and a timestamp that is sent as it is written. -/
structure StoredAsGiven (reader : DateReader) (dto : UpdateTransactionDto)
    (row : TransactionRow) : Prop where
  nullTimestamp : dto.timestamp = .null → row.timestamp = sentEpoch reader
  timestamp : ∀ s, dto.timestamp = .value s → SentAsWritten reader s
  texts : dto.Uncut

/-- A SET clause that applies its body stores the body's values as they are given. -/
theorem Applied.storedAsGiven (set : SetBy reader dto change)
    (applied : Applied reader dto row (row.set change)) : StoredAsGiven reader dto row := by
  refine ⟨?_, ?_, ?_, ?_⟩
  · intro null
    have timestamp := applied.timestamp
    have column := set.timestamp
    rw [null] at timestamp column
    have stored : (row.set change).timestamp = sentEpoch reader := by
      rw [TransactionRow.set, ← Option.some.inj column]
      rfl
    rw [stored] at timestamp
    exact (timestamp.resolve_left fun none => none).symm
  · intro s value
    rw [sentAsWritten_iff]
    intro t read
    obtain ⟨kept, t', sets, read', same⟩ := set.timestamp_of_value value
    cases read.symm.trans read'
    have stored : (row.set change).timestamp = kept := by rw [TransactionRow.set, sets]; rfl
    have holds := applied.timestamp
    rw [value, stored] at holds
    exact same ▸ (holds : Iso8601.Denotes reader.zoneOffset s kept.instant.ms)
  · intro s value
    obtain ⟨kept, sets, whole⟩ := Property.kept_of_column set.transactionId value
    have stored : (row.set change).transactionId = kept := by rw [TransactionRow.set, sets]; rfl
    have holds := applied.transactionId
    rw [value, stored] at holds
    exact whole.mp holds
  · intro s value
    obtain ⟨kept, sets, whole⟩ := Property.kept_of_column set.bankName value
    have stored : (row.set change).bankName = kept := by rw [TransactionRow.set, sets]; rfl
    have holds := applied.bankName
    rw [value, stored] at holds
    exact whole.mp holds

/-- Where the body's values are stored as they are given, its SET clause applies it. -/
theorem StoredAsGiven.applied (valid : dto.Valid isDateString) (set : SetBy reader dto change)
    (asGiven : StoredAsGiven reader dto row) : Applied reader dto row (row.set change) := by
  refine ⟨?_, ?_, ?_, ?_, ?_, ?_, rfl, rfl, rfl, rfl, rfl⟩
  · refine Property.applied_column set.amount (fun _ _ none => nomatch none) ?_
    intro v n given stored
    have check := valid.amount
    rw [given] at check
    exact ⟨(Numeric.text_of_toFixed2 check.2 stored).1,
      Numeric.literal_toString check.2 check.1 stored⟩
  · exact Property.applied_column set.transactionId (fun _ _ none => nomatch none)
      fun s v given stored =>
        (Varchar.value_eq_iff stored).mpr (asGiven.texts.transactionId s given)
  · refine Property.applied_column set.timestamp ?_ ?_
    · intro t null stored
      exact Or.inr ((Option.some.inj stored).symm.trans (asGiven.nullTimestamp null).symm)
    · intro s t given stored
      obtain ⟨read, dated, same⟩ := Timestamptz.ofDate_eq_some.mp stored
      exact same ▸ sentAsWritten_iff.mp (asGiven.timestamp s given) read dated
  · exact Property.applied_column set.bankName (fun _ _ none => nomatch none)
      fun s v given stored => (Varchar.value_eq_iff stored).mpr (asGiven.texts.bankName s given)
  · exact Property.applied_column set.confidence (fun _ _ none => nomatch none)
      fun n m _ stored => (Option.some.inj stored).symm
  · refine Property.applied_column set.imageUrl
      (fun url _ stored => Or.inl (Option.some.inj stored).symm) ?_
    intro s url _ stored
    obtain ⟨text, kept, rfl⟩ := Option.map_eq_some_iff.mp stored
    rw [Option.map_some, Text.ofString_eq_some kept]

/-- The rows after an update are those before it with one row replaced. -/
theorem updateRows_eq (found : db.find id = some row) {new : TransactionRow} :
    (Db.updateRows db.transactions id change =
      db.transactions.map fun other => if other.id = id then new else other) ↔
      row.set change = new := by
  obtain ⟨member, sameId⟩ := Db.find_eq_some.mp found
  rw [Db.updateRows, List.map_inj_left]
  refine ⟨?_, ?_⟩
  · intro same
    have here := same row member
    rwa [if_pos sameId, if_pos sameId] at here
  · rintro rfl other otherMember
    by_cases target : other.id = id
    · have only : other = row := Option.some.inj
        ((Db.find_eq_some.mpr ⟨otherMember, target⟩).symm.trans found)
      rw [only]
    · rw [if_neg target, if_neg target]

/-- The body that gives a null timestamp. -/
def nullTimestampDto : UpdateTransactionDto := { emptyDto with timestamp := .null }

theorem nullTimestampDto_valid (isDateString : String → Prop) :
    nullTimestampDto.Valid isDateString := ⟨trivial, trivial, trivial, trivial, trivial, trivial⟩

/-- The store after the sample row was given a null timestamp. -/
def nullTimestampDb : Db :=
  .single { sampleRow with timestamp := epoch }
    [sampleLog .timestamp (some ⟨"2024-01-15T10:00:00.000Z", by decide⟩) none]
    (List.forall_mem_singleton.mpr rfl)

theorem run_nullTimestampDto : ∃ response,
    Procedure.run (update utcReader "receipt" nullTimestampDto "system") sampleDb =
      (.ok response, nullTimestampDb) := by
  refine (update_eq_ok find_sampleDb).mpr ⟨nullTimestampDb.editLogs,
    { RowChange.nothing with timestamp := some epoch }, ?_, ?_, rfl, rfl⟩
  · decide +kernel
  · decide +kernel

end BirrTrack.Transactions
