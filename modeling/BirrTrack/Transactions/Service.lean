import BirrTrack.Transactions.Dto

/-! # The transactions service

`TransactionsService`, over the tables. Each call of the repository is one atomic
statement; `update` reads the row first and writes inside a database transaction.
-/

namespace BirrTrack.Transactions

open Js Database

/-- What the database generates for a new row. -/
structure Generated where
  id : String
  createdAt : Timestamptz

/-- A transaction as `transactionRepository.create` builds it. -/
structure NewTransaction where
  telegramUserId : String
  telegramName : String
  amount : String
  transactionId : String
  timestamp : Date
  bankName : String
  confidence : Number
  isDuplicate : Bool
  imageUrl : Option String

/-- The row that an INSERT stores, unless a column rejects its value. -/
def NewTransaction.toRow (reader : DateReader) (new : NewTransaction) (generated : Generated) :
    Option TransactionRow := do
  return {
    id := generated.id
    telegramUserId := ← Bigint.ofText new.telegramUserId
    telegramName := ← Varchar.ofString 255 new.telegramName
    amount := ← Numeric.ofText new.amount
    transactionId := ← Varchar.ofString 128 new.transactionId
    timestamp := ← Timestamptz.ofDate reader new.timestamp
    bankName := ← Varchar.ofString 120 new.bankName
    confidence := new.confidence
    isDuplicate := new.isDuplicate
    imageUrl := ← nullableText new.imageUrl
    createdAt := generated.createdAt }

/-- The object that was saved, with the generated columns filled in. -/
def NewTransaction.saved (new : NewTransaction) (row : TransactionRow) : Transaction where
  id := row.id
  telegramUserId := new.telegramUserId
  telegramName := new.telegramName
  amount := new.amount
  transactionId := new.transactionId
  -- An Invalid Date is not saved at all.
  timestamp := new.timestamp.getD row.timestamp.instant
  bankName := new.bankName
  confidence := new.confidence
  isDuplicate := new.isDuplicate
  imageUrl := new.imageUrl
  createdAt := row.createdAt.instant

/-- `transactionRepository.save` -/
def save (reader : DateReader) (generated : Generated) (new : NewTransaction) :
    Procedure Db Failure Transaction :=
  .statement fun db =>
    match (new.toRow reader generated).bind fun row => (db.insert row).map (row, ·) with
    | none => .error .queryFailed
    | some (row, after) => .ok (new.saved row, after)

/-- The object that `create` saves. -/
def CreateTransactionDto.toNew (reader : DateReader) (dto : CreateTransactionDto) :
    NewTransaction where
  telegramUserId := dto.telegramUserId
  telegramName := dto.telegramName
  amount := dto.amount.toFixed2
  transactionId := dto.transactionId
  timestamp := newDate reader dto.timestamp
  bankName := dto.bankName
  confidence := dto.confidence
  isDuplicate := dto.isDuplicate
  imageUrl := dto.imageUrl.toOption

def create (reader : DateReader) (generated : Generated) (dto : CreateTransactionDto) :
    Procedure Db Failure Transaction :=
  save reader generated (dto.toNew reader)

/-- The parameters of the duplicate lookup, as the database reads them. -/
structure DuplicateLookup where
  transactionId : Text
  amount : ℚ
  timestamp : Timestamptz

def DuplicateLookup.of (reader : DateReader) (transactionId : String) (amount : Number)
    (timestamp : String) : Option DuplicateLookup := do
  return {
    transactionId := ← Text.ofString transactionId
    amount := ← Decimal.literal amount.toFixed2.toList
    timestamp := ← Timestamptz.ofDate reader (newDate reader timestamp) }

def DuplicateLookup.Matches (lookup : DuplicateLookup) (row : TransactionRow) : Prop :=
  row.transactionId.value = lookup.transactionId.value ∧
    (row.amount.cents : ℚ) / 100 = lookup.amount ∧ row.timestamp = lookup.timestamp

instance (lookup : DuplicateLookup) : DecidablePred lookup.Matches :=
  fun _ => inferInstanceAs (Decidable (_ ∧ _ ∧ _))

def findDuplicate (reader : DateReader) (transactionId : String) (amount : Number)
    (timestamp : String) : Procedure Db Failure (Option Transaction) :=
  .query fun db =>
    match DuplicateLookup.of reader transactionId amount timestamp with
    | none => .error .queryFailed
    | some lookup =>
        .ok ((db.transactions.find? (lookup.Matches ·)).map TransactionRow.toEntity)

/-! ## Updates -/

def readFieldValue : Value → Option String
  | .undefined => none
  | .null => none
  | .date d => some d.toISOString
  | .string s => some s
  | .number n => some n.toString

def candidates : List EditableTransactionField :=
  [.amount, .transactionId, .timestamp, .bankName, .confidence, .imageUrl]

def getUpdateFields (dto : UpdateTransactionDto) : List EditableTransactionField :=
  candidates.filter fun field => dto.get field ≠ .undefined

/-- The columns that `prepareUpdatePayload` hands to the repository; a property that
is undefined is not set. -/
structure UpdatePayload where
  amount : Option String
  transactionId : Property String
  timestamp : Option Date
  bankName : Property String
  confidence : Property Number
  imageUrl : Property String

def prepareUpdatePayload (reader : DateReader) (dto : UpdateTransactionDto) :
    Except Failure UpdatePayload := do
  return {
    amount := ← match dto.amount with
      | .undefined => .ok none
      -- `null.toFixed(2)`
      | .null => .error .typeError
      | .value amount => .ok (some amount.toFixed2)
    transactionId := dto.transactionId
    timestamp := match dto.timestamp with
      | .undefined => none
      -- `new Date(null)` is `new Date(0)`
      | .null => some (timeClip 0)
      | .value timestamp => some (newDate reader timestamp)
    bankName := dto.bankName
    confidence := dto.confidence
    imageUrl := dto.imageUrl }

/-- A column that takes no null. -/
def Property.required {α β : Type} (convert : α → Option β) : Property α → Option (Option β)
  | undefined => some none
  | null => none
  | value a => (convert a).map some

/-- A column that takes null. -/
def Property.nullable {α β : Type} (convert : α → Option β) :
    Property α → Option (Option (Option β))
  | undefined => some none
  | null => some (some none)
  | value a => (convert a).map fun b => some (some b)

/-- The SET clause, unless a column rejects its value. -/
def UpdatePayload.toChange (reader : DateReader) (payload : UpdatePayload) :
    Option RowChange := do
  return {
    amount := ← payload.amount.mapM Numeric.ofText
    transactionId := ← payload.transactionId.required (Varchar.ofString 128)
    timestamp := ← payload.timestamp.mapM (Timestamptz.ofDate reader)
    bankName := ← payload.bankName.required (Varchar.ofString 120)
    confidence := ← payload.confidence.required some
    imageUrl := ← payload.imageUrl.nullable Text.ofString }

def findOne (id : String) : Procedure Db Failure (Option Transaction) :=
  .query fun db => .ok ((db.find id).map TransactionRow.toEntity)

def saveEditLog (log : NewEditLog) : Procedure Db Failure Unit :=
  .statement fun db =>
    match log.toRow.bind db.appendLog with
    | none => .error .queryFailed
    | some after => .ok ((), after)

def updateTransaction (reader : DateReader) (id : String) (payload : UpdatePayload) :
    Procedure Db Failure Unit :=
  .statement fun db =>
    match payload.toChange reader with
    | none => .error .queryFailed
    | some change => .ok ((), db.update id change)

/-- `Number(item.amount)` with the other properties of the item; none is NaN. -/
structure TransactionResponse where
  item : Transaction
  amount : Option Number

def toResponse (item : Transaction) : TransactionResponse :=
  ⟨item, Number.ofText Number.ofRat item.amount.toList⟩

/-- The old and the new value of a field, as the edit log records them. -/
def editLog (existing : Transaction) (dto : UpdateTransactionDto) (editedBy : String)
    (field : EditableTransactionField) : NewEditLog where
  transactionId := existing.id
  fieldName := field
  oldValue := readFieldValue (existing.get field)
  newValue := readFieldValue (dto.get field)
  editedBy := editedBy

def writeEditLog (existing : Transaction) (dto : UpdateTransactionDto) (editedBy : String)
    (field : EditableTransactionField) : Procedure Db Failure Unit :=
  let log := editLog existing dto editedBy field
  if log.oldValue = log.newValue then pure () else saveEditLog log

/-- The second half of the database transaction of `update`: the new values, read
back. -/
def storeUpdate (reader : DateReader) (id : String) (dto : UpdateTransactionDto) :
    Procedure Db Failure Transaction := do
  let preparedUpdate ← Procedure.ofExcept (prepareUpdatePayload reader dto)
  updateTransaction reader id preparedUpdate
  match ← findOne id with
  | none => throw (.notFound s!"Transaction {id} not found after update")
  | some saved => return saved

/-- The database transaction of `update`, for the row as it was read before. -/
def commitUpdate (reader : DateReader) (existing : Transaction) (dto : UpdateTransactionDto)
    (editedBy : String) : Procedure Db Failure Transaction :=
  .transaction do
    forM (getUpdateFields dto) (writeEditLog existing dto editedBy)
    storeUpdate reader existing.id dto

/-- What `update` does with the row it has read. -/
def updateExisting (reader : DateReader) (existing : Transaction) (dto : UpdateTransactionDto)
    (editedBy : String) : Procedure Db Failure TransactionResponse := do
  if getUpdateFields dto = [] then
    return toResponse existing
  else
    let updated ← commitUpdate reader existing dto editedBy
    return toResponse updated

def update (reader : DateReader) (id : String) (dto : UpdateTransactionDto) (editedBy : String) :
    Procedure Db Failure TransactionResponse := do
  match ← findOne id with
  | none => throw (.notFound s!"Transaction {id} not found")
  | some existing => updateExisting reader existing dto editedBy

/-! ## Queries -/

/-- The filters of a query; a date or a user that the database cannot read fails it. -/
def buildFilteredQuery (reader : DateReader) (query : GetTransactionsQueryDto) :
    Procedure Db Failure (List TransactionRow) :=
  .query fun db =>
    let given : Option String → Option String := fun property => property.filter (· ≠ "")
    let parameters := do
      return (
        ← (given query.startDate).mapM fun date => Timestamptz.ofDate reader (newDate reader date),
        ← (given query.endDate).mapM fun date => Timestamptz.ofDate reader (newDate reader date),
        ← (given query.telegramUserId).mapM Bigint.ofText)
    match parameters with
    | none => .error .queryFailed
    | some (startDate, endDate, telegramUserId) =>
        .ok (db.transactions.filter fun row =>
          (∀ date ∈ startDate, date.instant.ms ≤ row.timestamp.instant.ms) ∧
          (∀ date ∈ endDate, row.timestamp.instant.ms ≤ date.instant.ms) ∧
          (∀ user ∈ telegramUserId, row.telegramUserId = user))

/-- The order in which the database returns rows sorted by `createdAt`, newest
first; rows created at the same time come in an order of its own choice. -/
structure NewestFirst where
  sort : List TransactionRow → List TransactionRow
  perm : ∀ rows, (sort rows).Perm rows
  sorted : ∀ rows, (sort rows).Pairwise fun first second =>
    second.createdAt.instant.ms ≤ first.createdAt.instant.ms

structure TransactionsPage where
  page : ℕ
  limit : ℕ
  total : ℕ
  items : List TransactionResponse

/-- `(page - 1) * limit` as the query's OFFSET, which has 64 bits. -/
def GetTransactionsQueryDto.skip (queryDto : GetTransactionsQueryDto) : Option ℕ := do
  let previous ← Number.ofRat (queryDto.page - 1)
  let product ← Number.ofRat (previous.val * queryDto.getEffectiveLimit)
  let offset ← Decimal.literal product.toString.toList
  if 0 ≤ offset ∧ offset < 2 ^ 63 then some ⌊offset⌋.toNat else none

def findAll (reader : DateReader) (order : NewestFirst) (queryDto : GetTransactionsQueryDto) :
    Procedure Db Failure TransactionsPage := do
  let page := queryDto.page
  let limit := queryDto.getEffectiveLimit
  let rows ← buildFilteredQuery reader queryDto
  let skip ← Procedure.ofExcept (queryDto.skip.elim (.error .queryFailed) .ok)
  let items := ((order.sort rows).drop skip).take limit
  return {
    page := page
    limit := limit
    total := rows.length
    items := items.map fun row => toResponse row.toEntity }

/-- The sum of the amounts and the number of rows, as the database answers them and the code
reads them. -/
def summarize (rows : List TransactionRow) : TransactionSummaryDto :=
  let totalRevenue := if rows = [] then "0" else centsText (rows.map (·.amount.cents)).sum
  {
    totalRevenue := Number.ofText Number.ofRat totalRevenue.toList
    transactionCount := Number.ofText Number.ofRat (Nat.repr rows.length).toList }

def getSummary (reader : DateReader) (queryDto : GetTransactionsQueryDto) :
    Procedure Db Failure TransactionSummaryDto := do
  let rows ← buildFilteredQuery reader queryDto
  return summarize rows

/-- A row of the exported worksheet. -/
structure ExportRow where
  id : String
  telegramUserId : String
  telegramName : String
  amount : Option Number
  transactionId : String
  timestamp : String
  bankName : String
  confidence : Number
  isDuplicate : Bool
  imageUrl : String
  createdAt : String

def exportRow (item : Transaction) : ExportRow where
  id := item.id
  telegramUserId := item.telegramUserId
  telegramName := item.telegramName
  amount := Number.ofText Number.ofRat item.amount.toList
  transactionId := item.transactionId
  timestamp := item.timestamp.toISOString
  bankName := item.bankName
  confidence := item.confidence
  isDuplicate := item.isDuplicate
  imageUrl := item.imageUrl.getD ""
  createdAt := item.createdAt.toISOString

/-- The rows that `export` adds to the worksheet. -/
def exportRows (reader : DateReader) (order : NewestFirst) (queryDto : GetTransactionsQueryDto) :
    Procedure Db Failure (List ExportRow) := do
  let transactions ← buildFilteredQuery reader queryDto
  return (order.sort transactions).map fun row => exportRow row.toEntity

end BirrTrack.Transactions
