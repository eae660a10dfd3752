import BirrTrack.Foundation.EventMachine
import BirrTrack.Transactions.Storable

/-! # Concurrent edits of one row

Any number of editors call `update` for the same row. Each call reads the row and
later, in one database transaction, logs and writes; the calls interleave in any
order. The log tells the row's history truthfully exactly when no editor commits on
top of a change it has not seen.
-/

namespace BirrTrack.Transactions

open Js Database

/-! ## What log entries denote -/

/-- A value as the number, the instant or the text that it stands for. -/
inductive Meaning where
  | null
  | decimal (q : ℚ)
  | float (n : Number)
  | instant (t : TimeValue)
  | text (s : String)
  deriving DecidableEq

/-- What the text of a field other than `timestamp` denotes; a missing text is the null of
`imageUrl`. -/
def denote : EditableTransactionField → Option String → Option Meaning
  | .timestamp, _ => none
  | .amount, some s => (Decimal.literal s.toList).map .decimal
  | .transactionId, some s => some (.text s)
  | .bankName, some s => some (.text s)
  | .confidence, some s => (Number.ofText Number.ofRat s.toList).map .float
  | .imageUrl, some s => some (.text s)
  | .imageUrl, none => some .null
  | _, none => none

/-- The text of a field denotes a value; a date denotes what ISO 8601 says. -/
def Denotes (reader : DateReader) (field : EditableTransactionField) (text : Option String)
    (value : Meaning) : Prop :=
  if field = .timestamp then
    ∃ s t, text = some s ∧ value = .instant t ∧ Iso8601.Denotes reader.zoneOffset s t.ms
  else denote field text = some value

/-- What a row holds in a field. -/
def TransactionRow.meaning (row : TransactionRow) : EditableTransactionField → Meaning
  | .amount => .decimal (row.amount.cents / 100)
  | .transactionId => .text row.transactionId.value
  | .timestamp => .instant row.timestamp.instant
  | .bankName => .text row.bankName.value
  | .confidence => .float row.confidence
  | .imageUrl => row.imageUrl.elim .null fun url => .text url.value

variable {reader : DateReader} {dto : UpdateTransactionDto} {row : TransactionRow}
  {change : RowChange} {isDateString : String → Prop}

theorem denotes_of_ne {field : EditableTransactionField} {text : Option String} {value : Meaning}
    (other : field ≠ .timestamp) :
    Denotes reader field text value ↔ denote field text = some value := by
  rw [Denotes, if_neg other]

theorem denotes_timestamp {s : String} {t : TimeValue} :
    Denotes reader .timestamp (some s) (.instant t) ↔
      Iso8601.Denotes reader.zoneOffset s t.ms := by
  rw [Denotes, if_pos rfl]
  refine ⟨?_, fun denotes => ⟨s, t, rfl, rfl, denotes⟩⟩
  rintro ⟨s', t', ⟨⟩, ⟨⟩, denotes⟩
  exact denotes

theorem denote_stored (row : TransactionRow) {field : EditableTransactionField}
    (other : field ≠ .timestamp) :
    denote field (readFieldValue (row.stored field)) = some (row.meaning field) := by
  cases field with
  | amount =>
      change (Decimal.literal row.amount.text.toList).map Meaning.decimal = _
      rw [Numeric.literal_text]
      rfl
  | timestamp => exact absurd rfl other
  | confidence =>
      obtain ⟨q, literal, rounds⟩ := Number.literal_toString row.confidence
      change (Number.ofText Number.ofRat row.confidence.toString.toList).map Meaning.float = _
      rw [Number.ofText, literal, Option.bind_some, Number.ofRat_eq_some rounds]
      rfl
  | imageUrl =>
      cases url : row.imageUrl <;>
        simp [TransactionRow.stored, TransactionRow.toEntity, Transaction.get, url, readFieldValue,
          denote, TransactionRow.meaning]
  | _ => rfl

/-- The text of a stored value denotes it, and nothing else. -/
theorem denotes_stored {field : EditableTransactionField} {value : Meaning} :
    Denotes reader field (readFieldValue (row.stored field)) value ↔ value = row.meaning field := by
  by_cases timestamp : field = .timestamp
  · subst timestamp
    have text : readFieldValue (row.stored .timestamp) =
        some row.timestamp.instant.toISOString := rfl
    rw [text]
    refine ⟨?_, ?_⟩
    · intro denotes
      rw [Denotes, if_pos rfl] at denotes
      obtain ⟨s, t, ⟨⟩, rfl, here⟩ := denotes
      exact congrArg Meaning.instant (TimeValue.ext (denotes_toISOString.mp here))
    · rintro rfl
      exact denotes_timestamp.mpr (denotes_toISOString.mpr rfl)
  · rw [denotes_of_ne timestamp, denote_stored row timestamp, Option.some_inj]
    exact eq_comm

/-- Two versions of a row denote the same in a field when they store the same. -/
theorem meaning_eq_iff {first second : TransactionRow} {field : EditableTransactionField} :
    first.meaning field = second.meaning field ↔ first.stored field = second.stored field := by
  rw [← readFieldValue_stored]
  refine ⟨?_, ?_⟩
  · intro same
    cases field with
    | amount =>
        have cents : first.amount = second.amount := by
          have equal := Meaning.decimal.inj same
          exact Numeric.eq_of_literal first.amount.literal_text (equal ▸ first.amount.literal_text)
        change some first.amount.text = some second.amount.text
        rw [cents]
    | transactionId => exact congrArg some (Meaning.text.inj same)
    | timestamp =>
        exact congrArg (fun t => some (TimeValue.toISOString t)) (Meaning.instant.inj same)
    | bankName => exact congrArg some (Meaning.text.inj same)
    | confidence =>
        exact congrArg (fun n => some (Number.toString n)) (Meaning.float.inj same)
    | imageUrl =>
        simp only [TransactionRow.stored, TransactionRow.toEntity, Transaction.get]
        cases url : first.imageUrl <;> cases url' : second.imageUrl <;>
          simp_all [TransactionRow.meaning]
  · intro same
    have denotes : Denotes utcReader field (readFieldValue (first.stored field))
        (first.meaning field) := denotes_stored.mpr rfl
    rw [same] at denotes
    exact denotes_stored.mp denotes

theorem Property.denote_toValue {α β : Type} {field : Property α} {value : α → Value}
    {null : Option β} {convert : α → Option β} {set : Option β} {old : β}
    (denotes : Option String → Option Meaning)
    (meaning : β → Meaning) (sets : field.column null convert = some set)
    (given : field.toValue value ≠ .undefined)
    (onNull : ∀ b, field = .null → null = some b → denotes none = some (meaning b))
    (onValue : ∀ a b, field = .value a → convert a = some b →
      denotes (readFieldValue (value a)) = some (meaning b)) :
    denotes (readFieldValue (field.toValue value)) = some (meaning (set.getD old)) := by
  cases field with
  | undefined => exact absurd rfl given
  | null =>
      obtain ⟨b, kept, rfl⟩ := Option.map_eq_some_iff.mp sets
      exact onNull b rfl kept
  | value a =>
      obtain ⟨b, kept, rfl⟩ := Option.map_eq_some_iff.mp sets
      exact onValue a b rfl kept

/-- A given text denotes what its column holds afterwards, unless it is a timestamp or its column
cuts it. -/
theorem denote_get (valid : dto.Valid isDateString) (uncut : dto.Uncut)
    (set : SetBy reader dto change) {field : EditableTransactionField}
    (given : dto.get field ≠ .undefined) (other : field ≠ .timestamp) :
    denote field (readFieldValue (dto.get field)) = some ((row.set change).meaning field) := by
  cases field with
  | amount =>
      refine Property.denote_toValue (denote .amount) (fun n : Numeric => .decimal (n.cents / 100))
        set.amount given (fun _ _ none => nomatch none) ?_
      intro v n value stored
      have check := valid.amount
      rw [value] at check
      simp only [readFieldValue, denote, Numeric.literal_toString check.2 check.1 stored,
        Option.map_some]
  | transactionId =>
      refine Property.denote_toValue (denote .transactionId)
        (fun v : Varchar 128 => .text v.value) set.transactionId given
        (fun _ _ none => nomatch none) ?_
      intro s v value stored
      rw [(Varchar.value_eq_iff stored).mpr (uncut.transactionId s value)]
      rfl
  | timestamp => exact absurd rfl other
  | bankName =>
      refine Property.denote_toValue (denote .bankName)
        (fun v : Varchar 120 => .text v.value) set.bankName given (fun _ _ none => nomatch none) ?_
      intro s v value stored
      rw [(Varchar.value_eq_iff stored).mpr (uncut.bankName s value)]
      rfl
  | confidence =>
      refine Property.denote_toValue (denote .confidence) (fun n : Number => .float n)
        set.confidence given (fun _ _ none => nomatch none) ?_
      intro n m _ stored
      cases stored
      obtain ⟨q, literal, rounds⟩ := Number.literal_toString n
      simp only [readFieldValue, denote, Number.ofText, literal, Option.bind_some,
        Number.ofRat_eq_some rounds, Option.map_some]
  | imageUrl =>
      refine Property.denote_toValue (denote .imageUrl)
        (fun url : Option Text => url.elim .null fun text => .text text.value) set.imageUrl given
        ?_ ?_
      · intro url _ stored
        cases stored
        rfl
      · intro s url _ stored
        obtain ⟨text, kept, rfl⟩ := Option.map_eq_some_iff.mp stored
        simp only [readFieldValue, denote, Option.elim_some, Text.ofString_eq_some kept]

/-! ## One commit -/

/-- The log rows of a field of the row, from some point of the log on. -/
def fieldLogs (db : Db) (known : ℕ) (id : String) (field : EditableTransactionField) :
    List EditLog :=
  (db.editLogs.drop known).filter fun log => log.transactionId = id ∧ log.fieldName = field

/-- A log row takes up the value that the one before it has left. -/
def Follows (reader : DateReader) (field : EditableTransactionField) (first second : EditLog) :
    Prop :=
  ∃ value, Denotes reader field (first.newValue.map Text.value) value ∧
    Denotes reader field (second.oldValue.map Text.value) value

/-- From some point of the log on, each field's log rows follow one another up to the
value that the row holds. -/
def Chained (reader : DateReader) (id : String) (known : ℕ) (db : Db) : Prop :=
  ∃ row, db.find id = some row ∧ ∀ field,
    (fieldLogs db known id field).IsChain (Follows reader field) ∧
    ∀ last ∈ (fieldLogs db known id field).getLast?,
      Denotes reader field (last.newValue.map Text.value) (row.meaning field)

/-- Between two stores, every log row written has the value that its field held before,
and every field whose stored value changes has a log row. -/
def AuditedStep (reader : DateReader) (id : String) (before after : Db) : Prop :=
  ∃ old new written, before.find id = some old ∧ after.find id = some new ∧
    after.editLogs = before.editLogs ++ written ∧
    (∀ log ∈ written, log.transactionId = id ∧
      Denotes reader log.fieldName (log.oldValue.map Text.value) (old.meaning log.fieldName)) ∧
    ∀ field, old.stored field ≠ new.stored field → ∃ log ∈ written, log.fieldName = field

theorem filter_eq_singleton {α β : Type} [DecidableEq β] {f : α → β} {list : List α}
    (nodup : (list.map f).Nodup) {a : α} (member : a ∈ list) :
    (list.filter fun other => f other = f a) = [a] := by
  induction list with
  | nil => exact absurd member List.not_mem_nil
  | cons first list ih =>
      rw [List.map_cons, List.nodup_cons] at nodup
      rcases List.mem_cons.mp member with rfl | later
      · have none : (list.filter fun other => f other = f a) = [] := by
          rw [List.filter_eq_nil_iff]
          intro other otherMember same
          exact nodup.1 (of_decide_eq_true same ▸ List.mem_map_of_mem otherMember)
        simp only [decide_true, List.filter_cons_of_pos, none]
      · have different : f first ≠ f a := by
          intro same
          exact nodup.1 (same ▸ List.mem_map_of_mem later)
        simp only [different, decide_false, Bool.false_eq_true, not_false_eq_true,
          List.filter_cons_of_neg, ih nodup.2 later]

section Commit

variable {db after : Db} {id editedBy : String} {snapshot : TransactionRow} {logs : List EditLog}
  {known : ℕ}

theorem fieldLogs_append (past : known ≤ db.editLogs.length)
    (logged : logRows snapshot.toEntity dto editedBy (changedFields snapshot.toEntity dto) =
      some logs)
    (sameId : snapshot.id = id) (appended : after.editLogs = db.editLogs ++ logs)
    (field : EditableTransactionField) :
    fieldLogs after known id field =
      fieldLogs db known id field ++ logs.filter fun log => log.fieldName = field := by
  rw [fieldLogs, fieldLogs, appended, List.drop_append_of_le_length past, List.filter_append]
  congr 1
  apply List.filter_congr
  intro log member
  have ids := ((logRows_spec logged).2 log member).1
  simp only [ids.trans sameId, true_and]

/-- The log rows of one commit for one field: one if the field changed against the
snapshot, none otherwise. -/
theorem filter_fieldName
    (logged : logRows snapshot.toEntity dto editedBy (changedFields snapshot.toEntity dto) =
      some logs)
    (field : EditableTransactionField) :
    (field ∉ changedFields snapshot.toEntity dto ∧
        (logs.filter fun log => log.fieldName = field) = []) ∨
      ∃ log ∈ logs, log.fieldName = field ∧
        (logs.filter fun log => log.fieldName = field) = [log] := by
  obtain ⟨names, -⟩ := logRows_spec logged
  by_cases changed : field ∈ changedFields snapshot.toEntity dto
  · right
    obtain ⟨log, member, rfl⟩ := List.mem_map.mp (names.symm ▸ changed)
    exact ⟨log, member, rfl, filter_eq_singleton (names.symm ▸ nodup_changedFields) member⟩
  · left
    refine ⟨changed, List.filter_eq_nil_iff.mpr ?_⟩
    intro log member same
    exact changed (names ▸ of_decide_eq_true same ▸ List.mem_map_of_mem member)

/-- What makes the log rows of a commit truthful: a field that is logged was seen as it is, and its
new text denotes what is stored; one that is not logged keeps its value. -/
def Fresh (reader : DateReader) (dto : UpdateTransactionDto)
    (snapshot before after : TransactionRow) : Prop :=
  ∀ field, (field ∈ changedFields snapshot.toEntity dto →
      snapshot.stored field = before.stored field ∧
        Denotes reader field (readFieldValue (dto.get field)) (after.meaning field)) ∧
    (field ∉ changedFields snapshot.toEntity dto → before.stored field = after.stored field)

/-- A body that is committed on current values, in terms of the body, of what the editor has read
and of the row: the fields it gives hold what was read, no text is longer than its column, and the
timestamp is sent as it is written. A timestamp in the very text of the one that was read is not
logged; it is to be in the row already as it is sent. -/
structure OnCurrent (reader : DateReader) (dto : UpdateTransactionDto) (existing : Transaction)
    (row : TransactionRow) : Prop where
  seen : ∀ field, field ≠ .timestamp → dto.get field ≠ .undefined →
    existing.get field = row.stored field
  texts : dto.Uncut
  timestampGiven : dto.timestamp ≠ .null
  timestamp : ∀ s t, dto.timestamp = .value s → newDate reader s = some t →
    if existing.timestamp.toISOString = s then row.timestamp.instant.ms = sent reader t.ms
    else existing.timestamp = row.timestamp.instant ∧ SentAsWritten reader s

theorem mem_changedFields_timestamp {s : String} (value : dto.timestamp = .value s) :
    .timestamp ∈ changedFields snapshot.toEntity dto ↔
      snapshot.toEntity.timestamp.toISOString ≠ s := by
  have text : dto.get .timestamp = .string s := by rw [UpdateTransactionDto.get, value]; rfl
  have read : readFieldValue (snapshot.toEntity.get .timestamp) =
      some snapshot.timestamp.instant.toISOString := rfl
  rw [mem_changedFields, text, and_iff_right (Value.string_ne_undefined s), read]
  exact not_congr Option.some_inj

theorem readFieldValue_of_unchanged {field : EditableTransactionField}
    (given : dto.get field ≠ .undefined) (unchanged : field ∉ changedFields snapshot.toEntity dto) :
    readFieldValue (snapshot.stored field) = readFieldValue (dto.get field) := by
  by_contra differs
  exact unchanged (mem_changedFields.mpr ⟨given, differs⟩)

/-- A text that was not logged is one of a row, which its column keeps. -/
theorem length_le_of_fresh {limit : ℕ} {field : EditableTransactionField} {s : String}
    {old kept : Varchar limit} (other : field ≠ .timestamp)
    (fresh : Fresh reader dto snapshot row (row.set change)) (text : dto.get field = .string s)
    (read : snapshot.stored field = .string old.value)
    (literal : denote field (some s) = some (.text s))
    (holds : (row.set change).meaning field = .text kept.value)
    (whole : kept.value = s ↔ s.length ≤ limit) : s.length ≤ limit := by
  by_cases changed : field ∈ changedFields snapshot.toEntity dto
  · have denotes := ((fresh field).1 changed).2
    rw [text, readFieldValue, denotes_of_ne other, literal, holds] at denotes
    exact whole.mp (Meaning.text.inj (Option.some.inj denotes)).symm
  · have same : readFieldValue (snapshot.stored field) = readFieldValue (dto.get field) := by
      by_contra differs
      refine changed (mem_changedFields.mpr ⟨?_, differs⟩)
      rw [text]
      exact Value.string_ne_undefined s
    rw [read, text] at same
    exact Option.some.inj same ▸ old.fits

/-- A field other than `timestamp` that was not logged holds afterwards what was read. -/
theorem stored_of_unchanged (valid : dto.Valid isDateString) (uncut : dto.Uncut)
    (set : SetBy reader dto change) {field : EditableTransactionField}
    (given : dto.get field ≠ .undefined) (other : field ≠ .timestamp)
    (unchanged : field ∉ changedFields snapshot.toEntity dto) :
    snapshot.stored field = (row.set change).stored field := by
  have denotes := @denote_get reader dto row change isDateString valid uncut set field given other
  rw [← readFieldValue_of_unchanged given unchanged, denote_stored snapshot other] at denotes
  exact meaning_eq_iff.mp (Option.some.inj denotes)

/-- What an edit on fresh values has written, it has written on the current row. -/
theorem onCurrent_of_fresh (valid : dto.Valid isDateString) (set : SetBy reader dto change)
    (fresh : Fresh reader dto snapshot row (row.set change)) :
    OnCurrent reader dto snapshot.toEntity row := by
  have uncut : dto.Uncut := by
    refine ⟨?_, ?_⟩
    · intro s value
      obtain ⟨kept, sets, whole⟩ := Property.kept_of_column set.transactionId value
      refine length_le_of_fresh (by decide) fresh ?_ (@rfl _ (snapshot.stored .transactionId)) rfl
        ?_ whole
      · rw [UpdateTransactionDto.get, value]
        rfl
      · rw [TransactionRow.meaning, TransactionRow.set, sets]
        rfl
    · intro s value
      obtain ⟨kept, sets, whole⟩ := Property.kept_of_column set.bankName value
      refine length_le_of_fresh (by decide) fresh ?_ (@rfl _ (snapshot.stored .bankName)) rfl ?_
        whole
      · rw [UpdateTransactionDto.get, value]
        rfl
      · rw [TransactionRow.meaning, TransactionRow.set, sets]
        rfl
  refine ⟨?_, uncut, ?_, ?_⟩
  · intro field other given
    by_cases changed : field ∈ changedFields snapshot.toEntity dto
    · exact ((fresh field).1 changed).1
    · exact (stored_of_unchanged valid uncut set given other changed).trans
        ((fresh field).2 changed).symm
  · intro null
    have denotes := ((fresh .timestamp).1 (timestamp_mem_changedFields null)).2
    rw [UpdateTransactionDto.get, null, Denotes, if_pos rfl] at denotes
    obtain ⟨s, t, none, -⟩ := denotes
    cases none
  · intro s t value read
    obtain ⟨kept, t', sets, read', same⟩ := set.timestamp_of_value value
    cases read.symm.trans read'
    have stored : (row.set change).timestamp = kept := by rw [TransactionRow.set, sets]; rfl
    split
    next unlogged =>
      have kept' := (fresh .timestamp).2 fun changed =>
        (mem_changedFields_timestamp value).mp changed unlogged
      have instants : row.timestamp.instant = (row.set change).timestamp.instant :=
        Value.date.inj kept'
      rw [instants, stored, same]
    next logged =>
      obtain ⟨seen, denotes⟩ :=
        (fresh .timestamp).1 ((mem_changedFields_timestamp value).mpr logged)
      refine ⟨Value.date.inj seen, sentAsWritten_iff.mpr fun t' dated => ?_⟩
      cases read.symm.trans dated
      rw [UpdateTransactionDto.get, value, TransactionRow.meaning, stored] at denotes
      exact same ▸ denotes_timestamp.mp denotes

/-- An edit on the current row has fresh values. -/
theorem OnCurrent.fresh (valid : dto.Valid isDateString) (set : SetBy reader dto change)
    (current : OnCurrent reader dto snapshot.toEntity row) :
    Fresh reader dto snapshot row (row.set change) := by
  intro field
  by_cases given : dto.get field = .undefined
  · exact ⟨fun changed => absurd given (mem_changedFields.mp changed).1,
      fun _ => (stored_set_of_undefined set valid.nonnegAmount given).symm⟩
  by_cases timestamp : field = .timestamp
  · subst timestamp
    rcases Property.given_of_column set.timestamp given with ⟨null, -⟩ | ⟨s, value⟩
    · exact absurd null current.timestampGiven
    · obtain ⟨kept, t, sets, read, same⟩ := set.timestamp_of_value value
      have stored : (row.set change).timestamp = kept := by rw [TransactionRow.set, sets]; rfl
      have condition := current.timestamp s t value read
      rw [mem_changedFields_timestamp value]
      refine ⟨?_, ?_⟩
      · intro logged
        rw [if_neg logged] at condition
        refine ⟨congrArg Value.date condition.1, ?_⟩
        rw [UpdateTransactionDto.get, value, TransactionRow.meaning, stored]
        exact denotes_timestamp.mpr (same ▸ sentAsWritten_iff.mp condition.2 t read)
      · intro unlogged
        rw [if_pos (not_not.mp unlogged), ← same, ← stored] at condition
        exact congrArg Value.date (TimeValue.ext condition)
  · refine ⟨fun _ => ⟨current.seen field timestamp given, ?_⟩, fun unchanged => ?_⟩
    · rw [denotes_of_ne timestamp]
      exact denote_get valid current.texts set given timestamp
    · exact (current.seen field timestamp given).symm.trans
        (stored_of_unchanged valid current.texts set given timestamp unchanged)

/-- An edit whose log rows tell the truth had fresh values. -/
theorem fresh_of_audited (found : db.find id = some row) (sameId : snapshot.id = id)
    (past : known ≤ db.editLogs.length)
    (logged : logRows snapshot.toEntity dto editedBy (changedFields snapshot.toEntity dto) =
      some logs)
    (rows : after.transactions = Db.updateRows db.transactions id change)
    (appended : after.editLogs = db.editLogs ++ logs) (chained : Chained reader id known after)
    (audited : AuditedStep reader id db after) :
    Fresh reader dto snapshot row (row.set change) := by
  obtain ⟨old, new, written, foundOld, foundNew, appended', truthful, complete⟩ := audited
  cases found.symm.trans foundOld
  cases (find_of_updateRows found rows).symm.trans foundNew
  cases List.append_cancel_left (appended.symm.trans appended')
  obtain ⟨names, each⟩ := logRows_spec logged
  obtain ⟨current, foundCurrent, chains⟩ := chained
  cases foundNew.symm.trans foundCurrent
  intro field
  refine ⟨?_, ?_⟩
  · intro changed
    rcases filter_fieldName logged field with ⟨unchanged, -⟩ | ⟨log, member, rfl, only⟩
    · exact absurd changed unchanged
    · refine ⟨?_, ?_⟩
      · have old := (truthful log member).2
        rw [(each log member).2.1] at old
        exact meaning_eq_iff.mp (denotes_stored.mp old).symm
      · have last : log ∈ (fieldLogs after known id log.fieldName).getLast? := by
          rw [fieldLogs_append past logged sameId appended, only, List.getLast?_concat]
          rfl
        rw [← (each log member).2.2.1]
        exact (chains log.fieldName).2 log last
  · intro unchanged
    by_contra differs
    obtain ⟨log, member, rfl⟩ := complete field differs
    exact unchanged (names ▸ List.mem_map_of_mem member)

/-- An edit on fresh values leaves true log rows. -/
theorem audited_of_fresh (found : db.find id = some row) (sameId : snapshot.id = id)
    (past : known ≤ db.editLogs.length)
    (logged : logRows snapshot.toEntity dto editedBy (changedFields snapshot.toEntity dto) =
      some logs)
    (rows : after.transactions = Db.updateRows db.transactions id change)
    (appended : after.editLogs = db.editLogs ++ logs) (chained : Chained reader id known db)
    (fresh : Fresh reader dto snapshot row (row.set change)) :
    Chained reader id known after ∧ AuditedStep reader id db after := by
  obtain ⟨names, each⟩ := logRows_spec logged
  have foundNew := find_of_updateRows found rows
  have denotes : ∀ log ∈ logs,
      Denotes reader log.fieldName (log.oldValue.map Text.value) (row.meaning log.fieldName) ∧
        Denotes reader log.fieldName (log.newValue.map Text.value)
          ((row.set change).meaning log.fieldName) := by
    intro log member
    obtain ⟨seen, stored⟩ := (fresh log.fieldName).1 (names ▸ List.mem_map_of_mem member)
    refine ⟨?_, (each log member).2.2.1 ▸ stored⟩
    rw [(each log member).2.1]
    exact denotes_stored.mpr (meaning_eq_iff.mpr seen.symm)
  obtain ⟨current, foundCurrent, chains⟩ := chained
  cases found.symm.trans foundCurrent
  refine ⟨?_, ?_⟩
  · refine ⟨row.set change, foundNew, ?_⟩
    intro field
    obtain ⟨linked, reached⟩ := chains field
    rw [fieldLogs_append past logged sameId appended]
    rcases filter_fieldName logged field with ⟨unchanged, none⟩ | ⟨log, member, rfl, only⟩
    · rw [none, List.append_nil, ← meaning_eq_iff.mpr ((fresh field).2 unchanged)]
      exact ⟨linked, reached⟩
    · rw [only, List.getLast?_concat]
      refine ⟨List.isChain_append.mpr ⟨linked, List.isChain_singleton log, ?_⟩, ?_⟩
      · intro last lastMember first firstMember
        cases firstMember
        exact ⟨_, reached last lastMember, (denotes log member).1⟩
      · intro last lastMember
        cases lastMember
        exact (denotes log member).2
  · refine ⟨row, row.set change, logs, found, foundNew, appended, ?_, ?_⟩
    · intro log member
      exact ⟨(each log member).1.trans sameId, (denotes log member).1⟩
    · intro field differs
      have changed : field ∈ logs.map EditLog.fieldName := by
        rw [names]
        by_contra unchanged
        exact differs ((fresh field).2 unchanged)
      obtain ⟨log, member, name⟩ := List.mem_map.mp changed
      exact ⟨log, member, name⟩

end Commit

/-! ## Interleaved calls -/

/-- One call of `update`. -/
structure Edit where
  dto : UpdateTransactionDto
  editedBy : String

/-- How far a call has come. -/
inductive EditPhase where
  | waiting
  | reading (existing : Transaction)
  | finished

structure EditState (ι : Type) where
  db : Db
  phase : ι → EditPhase

inductive EditEvent (ι : Type) where
  | read (editor : ι)
  | commit (editor : ι)

/-- Calls of `update` for one row. Each reads the row, and later commits on the basis
of what it read. -/
def editMachine {ι : Type} [DecidableEq ι] (reader : DateReader) (id : String) (edits : ι → Edit) :
    EventMachine (EditState ι) (EditEvent ι) where
  step state
    | .read editor =>
        match state.phase editor with
        | .waiting =>
            match Procedure.run (findOne id) state.db with
            | (.ok (some existing), db) =>
                some ⟨db, Function.update state.phase editor (.reading existing)⟩
            | (_, db) => some ⟨db, Function.update state.phase editor .finished⟩
        | _ => none
    | .commit editor =>
        match state.phase editor with
        | .reading existing =>
            let edit := edits editor
            let (_, db) :=
              Procedure.run (updateExisting reader existing edit.dto edit.editedBy) state.db
            some ⟨db, Function.update state.phase editor .finished⟩
        | _ => none

/-- Every given value can be stored and, unless nothing is logged, the editor's name
fits: the edit goes through. -/
def Edit.GoesThrough (reader : DateReader) (edit : Edit) (existing : Transaction) : Prop :=
  Storable reader edit.dto ∧
    (changedFields existing edit.dto = [] ∨ FitsVarchar 120 edit.editedBy)

/-- An editor whose edit goes through commits on current values. -/
def CommitsOnCurrent {ι : Type} (reader : DateReader) (id : String) (edits : ι → Edit)
    (state : EditState ι) : EditEvent ι → Prop
  | .read _ => True
  | .commit editor => ∀ existing row, state.phase editor = .reading existing →
      state.db.find id = some row → (edits editor).GoesThrough reader existing →
        OnCurrent reader (edits editor).dto existing row

/-- What the past of a run ensures: the row exists, every editor read a version of it,
and the log has not become shorter. -/
def EditHistory {ι : Type} (id : String) (known : ℕ) (state : EditState ι) : Prop :=
  (∃ row, state.db.find id = some row) ∧ known ≤ state.db.editLogs.length ∧
    ∀ editor existing, state.phase editor = .reading existing →
      ∃ snapshot : TransactionRow, snapshot.id = id ∧ existing = snapshot.toEntity

section Runs

variable {ι : Type} [DecidableEq ι] {id : String} {edits : ι → Edit} {known : ℕ}
  {state next : EditState ι} {event : EditEvent ι}

/-- A step either leaves the store alone, or commits an edit that goes through. -/
theorem editMachine_step (valid : ∀ editor, (edits editor).dto.Valid isDateString)
    (past : EditHistory id known state)
    (step : (editMachine reader id edits).step state event = some next) :
    (next.db = state.db ∧ ∀ editor existing, event = .commit editor →
        state.phase editor = .reading existing → ¬ (edits editor).GoesThrough reader existing) ∨
      ∃ (editor : ι) (snapshot : TransactionRow) (change : RowChange) (logs : List EditLog),
        event = .commit editor ∧
        state.phase editor = .reading snapshot.toEntity ∧ snapshot.id = id ∧
        (edits editor).GoesThrough reader snapshot.toEntity ∧
        SetBy reader (edits editor).dto change ∧
        logRows snapshot.toEntity (edits editor).dto (edits editor).editedBy
          (changedFields snapshot.toEntity (edits editor).dto) = some logs ∧
        next.db.transactions = Db.updateRows state.db.transactions id change ∧
        next.db.editLogs = state.db.editLogs ++ logs := by
  obtain ⟨⟨row, found⟩, -, snapshots⟩ := past
  cases event with
  | read editor =>
      left
      refine ⟨?_, fun _ _ impossible => nomatch impossible⟩
      simp only [editMachine] at step
      split at step
      · rw [findOne, Procedure.run_query, found, Option.map_some] at step
        cases step
        rfl
      · cases step
  | commit editor =>
      simp only [editMachine] at step
      split at step
      next existing reading =>
        obtain ⟨snapshot, sameId, rfl⟩ := snapshots editor existing reading
        have foundSnapshot : state.db.find snapshot.toEntity.id = some row :=
          (congrArg state.db.find sameId).trans found
        have goes := @exists_updateExisting_ok_iff reader state.db (edits editor).dto
          (edits editor).editedBy row snapshot foundSnapshot (valid editor).nonnegAmount
        rcases ran : Procedure.run (updateExisting reader snapshot.toEntity (edits editor).dto
          (edits editor).editedBy) state.db with ⟨result, after⟩
        rw [ran] at step goes
        cases step
        cases result with
        | error failure =>
            left
            refine ⟨updateExisting_error ran, ?_⟩
            rintro other existing ⟨⟩ reading' through
            cases reading.symm.trans reading'
            obtain ⟨_, _, ok⟩ := goes.mpr through
            cases ok
        | ok response =>
            right
            obtain ⟨logs, change, logged, sets, rows, appended⟩ :=
              (@updateExisting_eq_ok reader state.db after snapshot.toEntity (edits editor).dto
                (edits editor).editedBy row foundSnapshot).mp ⟨response, ran⟩
            have named : snapshot.toEntity.id = id := sameId
            rw [named] at rows
            exact ⟨editor, snapshot, change, logs, rfl, reading, sameId,
              goes.mp ⟨after, response, rfl⟩, changeOf_eq_some.mp sets, logged, rows, appended⟩
      next => cases step

/-- An editor that has read the row in a step, or earlier, has a version of it. -/
theorem reading_of_step (past : EditHistory id known state)
    (step : (editMachine reader id edits).step state event = some next) {editor : ι}
    {existing : Transaction} (reading : next.phase editor = .reading existing) :
    ∃ snapshot : TransactionRow, snapshot.id = id ∧ existing = snapshot.toEntity := by
  obtain ⟨⟨row, found⟩, -, snapshots⟩ := past
  cases event with
  | read other =>
      simp only [editMachine] at step
      split at step
      · rw [findOne, Procedure.run_query, found, Option.map_some] at step
        cases step
        by_cases same : editor = other
        · subst same
          simp only [Function.update_self, EditPhase.reading.injEq] at reading
          exact ⟨row, (Db.find_eq_some.mp found).2, reading.symm⟩
        · simp only [Function.update_of_ne same] at reading
          exact snapshots editor existing reading
      · cases step
  | commit other =>
      simp only [editMachine] at step
      split at step
      · cases step
        by_cases same : editor = other
        · subst same
          simp only [Function.update_self, reduceCtorEq] at reading
        · simp only [Function.update_of_ne same] at reading
          exact snapshots editor existing reading
      · cases step

/-- Every step of the calls keeps the history. -/
theorem editHistory_step (valid : ∀ editor, (edits editor).dto.Valid isDateString)
    (past : EditHistory id known state)
    (step : (editMachine reader id edits).step state event = some next) :
    EditHistory id known next := by
  obtain ⟨row, found⟩ := past.1
  have logged := past.2.1
  rcases editMachine_step valid past step with
    ⟨same, -⟩ | ⟨editor, snapshot, change, logs, -, -, -, -, -, -, rows, appended⟩
  · exact ⟨⟨row, same ▸ found⟩, same ▸ logged, fun _ _ => reading_of_step past step⟩
  · refine ⟨⟨_, find_of_updateRows found rows⟩, ?_, fun _ _ => reading_of_step past step⟩
    rw [appended, List.length_append]
    exact logged.trans (Nat.le_add_right _ _)

/-- One step keeps the log truthful exactly when it commits on current values. -/
theorem editMachine_decides (valid : ∀ editor, (edits editor).dto.Valid isDateString)
    (past : EditHistory id known state) (chained : Chained reader id known state.db)
    (step : (editMachine reader id edits).step state event = some next) :
    Chained reader id known next.db ∧ AuditedStep reader id state.db next.db ↔
      CommitsOnCurrent reader id edits state event := by
  obtain ⟨row, found⟩ := past.1
  have logged := past.2.1
  rcases editMachine_step valid past step with
    ⟨same, fails⟩ | ⟨editor, snapshot, change, logs, rfl, reading, sameId, through, set, logRows,
      rows, appended⟩
  · rw [same]
    refine iff_of_true ⟨chained, row, row, [], found, found, (List.append_nil _).symm, ?_, ?_⟩ ?_
    · exact fun log member => absurd member List.not_mem_nil
    · exact fun field differs => absurd rfl differs
    · cases event with
      | read editor => trivial
      | commit editor =>
          intro existing _ reading _ through
          exact absurd through (fails editor existing rfl reading)
  · constructor
    · rintro ⟨chained, audited⟩ existing current reading' foundCurrent -
      cases reading.symm.trans reading'
      cases found.symm.trans foundCurrent
      exact onCurrent_of_fresh (valid editor) set
        (fresh_of_audited found sameId logged logRows rows appended chained audited)
    · intro onCurrent
      have current := onCurrent snapshot.toEntity row reading found through
      exact audited_of_fresh found sameId logged logRows rows appended chained
        (current.fresh (valid editor) set)

end Runs

/-- Two editors who each name another bank. -/
def bankEdits (editor : Bool) : Edit where
  dto := { emptyDto with bankName := .value (if editor then "Awash" else "Dashen") }
  editedBy := "system"

theorem bankEdits_valid (isDateString : String → Prop) (editor : Bool) :
    (bankEdits editor).dto.Valid isDateString where
  amount := trivial
  transactionId := trivial
  timestamp := trivial
  bankName := by
    change HasLength 1 120 (if editor then "Awash" else "Dashen")
    cases editor <;> exact ⟨by decide, by decide⟩
  confidence := trivial
  imageUrl := trivial

def editStart : EditState Bool := ⟨sampleDb, fun _ => .waiting⟩

/-- The sample store after the first of the two edits. -/
def bankDb : Db :=
  .single { sampleRow with bankName := ⟨"Awash", by decide, by decide⟩ }
    [sampleLog .bankName (some sampleBank) (some ⟨"Awash", by decide⟩)]
    (List.forall_mem_singleton.mpr rfl)

end BirrTrack.Transactions
