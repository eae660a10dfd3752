import BirrTrack.Database.Columns
import BirrTrack.Foundation.Procedure

/-! # The transactions and edit-log tables

Each entity exists in two forms: the row the database keeps, whose columns carry
their constraints, and the object the application works with. The store enforces
its primary and foreign keys by construction.
-/

namespace BirrTrack.Transactions

open Js Database

/-- What a rejected promise carries. -/
inductive Failure where
  | notFound (message : String)
  | typeError
  | queryFailed
  | error (message : String)
  | unavailable
  deriving DecidableEq

inductive EditableTransactionField where
  | amount
  | transactionId
  | timestamp
  | bankName
  | confidence
  | imageUrl
  deriving DecidableEq

/-- A property of an object that came in as JSON: absent, null or a value. -/
inductive Property (α : Type) where
  | undefined
  | null
  | value (a : α)
  deriving DecidableEq

/-- A property's value as the code inspects it at run time. -/
inductive Value where
  | undefined
  | null
  | string (s : String)
  | number (n : Number)
  | date (d : TimeValue)
  deriving DecidableEq

def Property.toValue {α : Type} (value : α → Value) : Property α → Value
  | undefined => .undefined
  | null => .null
  | Property.value a => value a

/-- The value of a property, and none for null and undefined. -/
def Property.toOption {α : Type} : Property α → Option α
  | value a => some a
  | _ => none

/-- A transaction as the application reads it. -/
structure Transaction where
  id : String
  telegramUserId : String
  telegramName : String
  amount : String
  transactionId : String
  timestamp : TimeValue
  bankName : String
  confidence : Number
  isDuplicate : Bool
  imageUrl : Option String
  createdAt : TimeValue
  deriving DecidableEq

/-- `transaction[field]` -/
def Transaction.get (transaction : Transaction) : EditableTransactionField → Value
  | .amount => .string transaction.amount
  | .transactionId => .string transaction.transactionId
  | .timestamp => .date transaction.timestamp
  | .bankName => .string transaction.bankName
  | .confidence => .number transaction.confidence
  | .imageUrl => transaction.imageUrl.elim .null .string

/-- A row of the `transactions` table. -/
@[ext] structure TransactionRow where
  id : String
  telegramUserId : Bigint
  telegramName : Varchar 255
  amount : Numeric
  transactionId : Varchar 128
  timestamp : Timestamptz
  bankName : Varchar 120
  confidence : Number
  isDuplicate : Bool
  imageUrl : Option Text
  createdAt : Timestamptz
  deriving DecidableEq

namespace TransactionRow

/-- The row as it is read back. -/
def toEntity (row : TransactionRow) : Transaction where
  id := row.id
  telegramUserId := row.telegramUserId.text
  telegramName := row.telegramName.value
  amount := row.amount.text
  transactionId := row.transactionId.value
  timestamp := row.timestamp.instant
  bankName := row.bankName.value
  confidence := row.confidence
  isDuplicate := row.isDuplicate
  imageUrl := row.imageUrl.map Text.value
  createdAt := row.createdAt.instant

/-- The stored value of an editable field, as it is read back. -/
def stored (row : TransactionRow) (field : EditableTransactionField) : Value :=
  row.toEntity.get field

end TransactionRow

/-- The columns that an UPDATE sets; the others keep their values. -/
structure RowChange where
  amount : Option Numeric
  transactionId : Option (Varchar 128)
  timestamp : Option Timestamptz
  bankName : Option (Varchar 120)
  confidence : Option Number
  imageUrl : Option (Option Text)
  deriving DecidableEq

def TransactionRow.set (row : TransactionRow) (change : RowChange) : TransactionRow :=
  { row with
    amount := change.amount.getD row.amount
    transactionId := change.transactionId.getD row.transactionId
    timestamp := change.timestamp.getD row.timestamp
    bankName := change.bankName.getD row.bankName
    confidence := change.confidence.getD row.confidence
    imageUrl := change.imageUrl.getD row.imageUrl }

@[simp] theorem TransactionRow.set_id (row : TransactionRow) (change : RowChange) :
    (row.set change).id = row.id := rfl

/-- The columns that no UPDATE sets. -/
structure Origin where
  id : String
  telegramUserId : Bigint
  telegramName : Varchar 255
  isDuplicate : Bool
  createdAt : Timestamptz
  deriving DecidableEq

def TransactionRow.origin (row : TransactionRow) : Origin where
  id := row.id
  telegramUserId := row.telegramUserId
  telegramName := row.telegramName
  isDuplicate := row.isDuplicate
  createdAt := row.createdAt

@[simp] theorem TransactionRow.set_origin (row : TransactionRow) (change : RowChange) :
    (row.set change).origin = row.origin := rfl

/-- An edit-log entry as the application saves it. -/
structure NewEditLog where
  transactionId : String
  fieldName : EditableTransactionField
  oldValue : Option String
  newValue : Option String
  editedBy : String

/-- A row of the `edit_logs` table. -/
structure EditLog where
  transactionId : String
  fieldName : EditableTransactionField
  oldValue : Option Text
  newValue : Option Text
  editedBy : Varchar 120
  deriving DecidableEq

/-- A nullable text column. -/
def nullableText : Option String → Option (Option Text)
  | none => some none
  | some value => (Text.ofString value).map some

def NewEditLog.toRow (log : NewEditLog) : Option EditLog := do
  return {
    transactionId := log.transactionId
    fieldName := log.fieldName
    oldValue := ← nullableText log.oldValue
    newValue := ← nullableText log.newValue
    editedBy := ← Varchar.ofString 120 log.editedBy }

/-- The two tables, rows in the order of their insertion. -/
@[ext] structure Db where
  transactions : List TransactionRow
  editLogs : List EditLog
  primaryKey : (transactions.map TransactionRow.id).Nodup
  foreignKey : ∀ log ∈ editLogs, log.transactionId ∈ transactions.map TransactionRow.id

namespace Db

def empty : Db := ⟨[], [], List.nodup_nil, fun _ member => absurd member List.not_mem_nil⟩

def find (db : Db) (id : String) : Option TransactionRow := db.transactions.find? (·.id = id)

def insert (db : Db) (row : TransactionRow) : Option Db :=
  if fresh : row.id ∉ db.transactions.map TransactionRow.id then
    some {
      transactions := db.transactions ++ [row]
      editLogs := db.editLogs
      primaryKey := by
        rw [List.map_append, List.nodup_append]
        refine ⟨db.primaryKey, List.nodup_singleton _, ?_⟩
        rintro id member _ single rfl
        exact fresh (List.mem_singleton.mp single ▸ member)
      foreignKey := fun log member => by
        rw [List.map_append]
        exact List.mem_append_left _ (db.foreignKey log member) }
  else none

/-- The rows after an UPDATE of those with this id. -/
def updateRows (rows : List TransactionRow) (id : String) (change : RowChange) :
    List TransactionRow :=
  rows.map fun row => if row.id = id then row.set change else row

/-- Changing a row keeps the list of ids. -/
@[simp] theorem map_id_updateRows (rows : List TransactionRow) (id : String) (change : RowChange) :
    (updateRows rows id change).map TransactionRow.id = rows.map TransactionRow.id := by
  rw [updateRows, List.map_map]
  apply List.map_congr_left
  intro row _
  simp only [Function.comp_apply]
  split <;> rfl

/-- Changing a row keeps where each row comes from. -/
@[simp] theorem map_origin_updateRows (rows : List TransactionRow) (id : String)
    (change : RowChange) :
    (updateRows rows id change).map TransactionRow.origin = rows.map TransactionRow.origin := by
  rw [updateRows, List.map_map]
  apply List.map_congr_left
  intro row _
  simp only [Function.comp_apply]
  split <;> rfl

def update (db : Db) (id : String) (change : RowChange) : Db where
  transactions := updateRows db.transactions id change
  editLogs := db.editLogs
  primaryKey := by
    rw [map_id_updateRows]
    exact db.primaryKey
  foreignKey := by
    rw [map_id_updateRows]
    exact db.foreignKey

@[simp] theorem update_transactions (db : Db) (id : String) (change : RowChange) :
    (db.update id change).transactions = updateRows db.transactions id change := rfl

@[simp] theorem update_editLogs (db : Db) (id : String) (change : RowChange) :
    (db.update id change).editLogs = db.editLogs := rfl

def appendLog (db : Db) (log : EditLog) : Option Db :=
  if known : log.transactionId ∈ db.transactions.map TransactionRow.id then
    some {
      transactions := db.transactions
      editLogs := db.editLogs ++ [log]
      primaryKey := db.primaryKey
      foreignKey := fun found member => by
        rcases List.mem_append.mp member with earlier | last
        · exact db.foreignKey found earlier
        · exact List.mem_singleton.mp last ▸ known }
  else none

variable {db after : Db} {row : TransactionRow} {log : EditLog} {id : String}

/-- An insert succeeds exactly if the id is new, and adds the row at the end. -/
theorem insert_eq_some :
    db.insert row = some after ↔ row.id ∉ db.transactions.map TransactionRow.id ∧
      after.transactions = db.transactions ++ [row] ∧ after.editLogs = db.editLogs := by
  unfold insert
  split
  next fresh =>
    rw [Option.some_inj]
    refine ⟨?_, ?_⟩
    · rintro rfl
      exact ⟨fresh, rfl, rfl⟩
    · intro conditions
      obtain ⟨-, rows, logs⟩ := conditions
      exact Db.ext rows.symm logs.symm
  next taken =>
    refine ⟨?_, ?_⟩
    · intro impossible
      cases impossible
    · intro inserted
      exact absurd inserted.1 taken

/-- A log row may be added for a row of the table. -/
theorem appendLog_of_mem (known : log.transactionId ∈ db.transactions.map TransactionRow.id) :
    ∃ after, db.appendLog log = some after ∧ after.transactions = db.transactions ∧
      after.editLogs = db.editLogs ++ [log] := by
  simp only [appendLog, known, ↓reduceDIte]
  exact ⟨_, rfl, rfl, rfl⟩

/-- What `find` returns is a row of the table with that id. -/
theorem find_eq_some : db.find id = some row ↔ row ∈ db.transactions ∧ row.id = id := by
  refine ⟨?_, ?_⟩
  · intro found
    exact ⟨List.mem_of_find?_eq_some found, by simpa using List.find?_some found⟩
  · intro conditions
    obtain ⟨member, rfl⟩ := conditions
    obtain ⟨other, found⟩ : ∃ other, db.find row.id = some other :=
      Option.isSome_iff_exists.mp (List.find?_isSome.mpr ⟨row, member, by simp⟩)
    have otherMember := List.mem_of_find?_eq_some found
    have sameId : other.id = row.id := by simpa using List.find?_some found
    rw [found, List.inj_on_of_nodup_map db.primaryKey otherMember member sameId]

/-- After a change `find` returns the changed row. -/
theorem find_update {change : RowChange} (found : db.find id = some row) :
    (db.update id change).find id = some (row.set change) := by
  obtain ⟨member, rfl⟩ := find_eq_some.mp found
  exact find_eq_some.mpr ⟨List.mem_map.mpr ⟨row, member, by simp⟩, rfl⟩

end Db

end BirrTrack.Transactions
