import BirrTrack.Transactions.Service

/-! # New rows and the duplicate lookup

What `create` stores and what `findDuplicate` finds, in terms of the key by which the
lookup tells receipts apart.
-/

namespace BirrTrack.Transactions

open Js Database

/-- The columns that the duplicate lookup compares. -/
@[ext] structure TransactionKey where
  transactionId : String
  cents : ℤ
  timestamp : Timestamptz
  deriving DecidableEq

def TransactionRow.key (row : TransactionRow) : TransactionKey :=
  ⟨row.transactionId.value, row.amount.cents, row.timestamp⟩

/-- The key of the rows that a lookup finds, unless no row can have it; the number is looked up as
it is given. -/
def keyOf (reader : DateReader) (transactionId : String) (amount : Number) (timestamp : String) :
    Option TransactionKey := do
  return {
    transactionId := (← Text.ofString transactionId).value
    cents := (← Numeric.ofText amount.toFixed2).cents
    timestamp := ← Timestamptz.ofDate reader (newDate reader timestamp) }

def CreateTransactionDto.key (reader : DateReader) (dto : CreateTransactionDto) :
    Option TransactionKey :=
  keyOf reader dto.transactionId dto.amount dto.timestamp

variable {reader : DateReader} {generated : Generated} {db after : Db} {row : TransactionRow}
  {dto : CreateTransactionDto} {new : NewTransaction} {saved : Transaction} {key : TransactionKey}
  {transactionId timestamp : String} {amount : Number}

/-- Column by column, what an INSERT stores. -/
theorem toRow_eq_some :
    new.toRow reader generated = some row ↔
      (row.id = generated.id ∧ row.confidence = new.confidence ∧
        row.isDuplicate = new.isDuplicate ∧ row.createdAt = generated.createdAt) ∧
      Bigint.ofText new.telegramUserId = some row.telegramUserId ∧
      Varchar.ofString 255 new.telegramName = some row.telegramName ∧
      Numeric.ofText new.amount = some row.amount ∧
      Varchar.ofString 128 new.transactionId = some row.transactionId ∧
      Timestamptz.ofDate reader new.timestamp = some row.timestamp ∧
      Varchar.ofString 120 new.bankName = some row.bankName ∧
      nullableText new.imageUrl = some row.imageUrl := by
  simp only [NewTransaction.toRow, Option.bind_eq_bind, Option.bind_eq_some_iff, Option.pure_def,
    Option.some_inj]
  refine ⟨?_, ?_⟩
  · rintro ⟨user, userStored, name, nameStored, cents, amountStored, number, numberStored, instant,
      instantStored, bank, bankStored, image, imageStored, rfl⟩
    exact ⟨⟨rfl, rfl, rfl, rfl⟩, userStored, nameStored, amountStored, numberStored, instantStored,
      bankStored, imageStored⟩
  · intro conditions
    obtain ⟨⟨id, confidence, flag, createdAt⟩, user, name, amount, number, instant, bank, image⟩ :=
      conditions
    refine ⟨_, user, _, name, _, amount, _, number, _, instant, _, bank, _, image, ?_⟩
    apply TransactionRow.ext
    · exact id.symm
    all_goals first | rfl | exact confidence.symm | exact flag.symm | exact createdAt.symm

theorem keyOf_eq_some :
    keyOf reader transactionId amount timestamp = some key ↔
      ((Text.ofString transactionId).map Text.value = some key.transactionId ∧
        (Numeric.ofText amount.toFixed2).map Numeric.cents = some key.cents ∧
        Timestamptz.ofDate reader (newDate reader timestamp) = some key.timestamp) := by
  simp only [keyOf, Option.bind_eq_bind, Option.bind_eq_some_iff, Option.pure_def, Option.some_inj,
    Option.map_eq_some_iff]
  refine ⟨?_, ?_⟩
  · intro conditions
    obtain ⟨number, numberStored, cents, centsStored, instant, instantStored, rfl⟩ := conditions
    exact ⟨⟨number, numberStored, rfl⟩, ⟨cents, centsStored, rfl⟩, instantStored⟩
  · intro conditions
    obtain ⟨⟨number, numberStored, numberKey⟩, ⟨cents, centsStored, centsKey⟩, instantStored⟩ :=
      conditions
    exact ⟨number, numberStored, cents, centsStored, _, instantStored,
      TransactionKey.ext numberKey centsKey rfl⟩

/-- The key of a row with another number. -/
def TransactionRow.keyWith (row : TransactionRow) (transactionId : String) : TransactionKey :=
  { row.key with transactionId := transactionId }

/-- The lookup for a receipt asks for the key of its row, with the number as it was before blanks
were cut off. -/
theorem key_of_toRow (stored : (dto.toNew reader).toRow reader generated = some row) :
    dto.key reader = some (row.keyWith dto.transactionId) := by
  obtain ⟨-, -, -, amount, number, instant, -⟩ := toRow_eq_some.mp stored
  refine keyOf_eq_some.mpr ⟨?_, ?_, instant⟩
  · have noZero : Char.ofNat 0 ∉ dto.transactionId.toList := Varchar.noZero_of_ofString number
    rw [Text.ofString, dif_pos noZero]
    rfl
  · exact (congrArg (Option.map Numeric.cents) amount).trans rfl

/-- A number that the column keeps as it is makes no difference. -/
theorem keyWith_eq_key_iff (stored : (dto.toNew reader).toRow reader generated = some row) :
    row.keyWith dto.transactionId = row.key ↔ dto.transactionId.length ≤ 128 := by
  obtain ⟨-, -, -, -, number, -⟩ := toRow_eq_some.mp stored
  have kept : row.transactionId.value = dto.transactionId ↔ dto.transactionId.length ≤ 128 :=
    Varchar.value_eq_iff number
  rw [← kept, TransactionKey.ext_iff]
  exact Iff.intro (fun same => same.1.symm) fun same => ⟨same.symm, rfl, rfl⟩

/-- A number that the table has is one that the column keeps as it is. -/
theorem keyWith_eq_key_of_found (stored : (dto.toNew reader).toRow reader generated = some row)
    {other : TransactionRow} (found : other.key = row.keyWith dto.transactionId) :
    row.keyWith dto.transactionId = row.key := by
  rw [keyWith_eq_key_iff stored]
  have number : other.transactionId.value = dto.transactionId :=
    congrArg TransactionKey.transactionId found
  exact number ▸ other.transactionId.fits

/-! ## Creation -/

theorem create_eq_ok :
    (create reader generated dto).run db = (.ok saved, after) ↔
      ∃ row, (dto.toNew reader).toRow reader generated = some row ∧ db.insert row = some after ∧
        saved = (dto.toNew reader).saved row := by
  cases stored : ((dto.toNew reader).toRow reader generated).bind fun row =>
      (db.insert row).map (row, ·) with
  | none =>
      have ran : (create reader generated dto).run db = (.error .queryFailed, db) :=
        Procedure.run_statement_error (by rw [stored])
      rw [ran]
      refine ⟨?_, ?_⟩
      · intro impossible
        cases impossible
      · intro conditions
        obtain ⟨row, converted, inserted, -⟩ := conditions
        rw [converted, Option.bind_some, inserted] at stored
        cases stored
  | some result =>
      obtain ⟨row, reached⟩ := result
      have ran : (create reader generated dto).run db =
          (.ok ((dto.toNew reader).saved row), reached) :=
        Procedure.run_statement_ok (by rw [stored])
      obtain ⟨other, converted, inserted⟩ := Option.bind_eq_some_iff.mp stored
      obtain ⟨final, inserted, same⟩ := Option.map_eq_some_iff.mp inserted
      cases same
      rw [ran]
      refine ⟨?_, ?_⟩
      · intro same
        cases same
        exact ⟨row, converted, inserted, rfl⟩
      · intro conditions
        obtain ⟨other, converted', inserted', rfl⟩ := conditions
        cases converted.symm.trans converted'
        cases inserted.symm.trans inserted'
        rfl

/-- A creation that fails stores nothing. -/
theorem create_error {failure : Failure}
    (failed : (create reader generated dto).run db = (.error failure, after)) : after = db := by
  cases stored : ((dto.toNew reader).toRow reader generated).bind fun row =>
      (db.insert row).map (row, ·) with
  | none =>
      have ran : (create reader generated dto).run db = (.error .queryFailed, db) :=
        Procedure.run_statement_error (by rw [stored])
      cases ran.symm.trans failed
      rfl
  | some result =>
      have ran : (create reader generated dto).run db =
          (.ok ((dto.toNew reader).saved result.1), result.2) :=
        Procedure.run_statement_ok (by rw [stored])
      cases ran.symm.trans failed

/-- Every column but the amount takes what a body gives. -/
structure CreateTransactionDto.FitsBesidesAmount (reader : DateReader)
    (dto : CreateTransactionDto) : Prop where
  telegramUserId : ∃ user, Bigint.ofText dto.telegramUserId = some user
  telegramName : ∃ name, Varchar.ofString 255 dto.telegramName = some name
  transactionId : ∃ number, Varchar.ofString 128 dto.transactionId = some number
  timestamp : ∃ instant, Timestamptz.ofDate reader (newDate reader dto.timestamp) = some instant
  bankName : ∃ bank, Varchar.ofString 120 dto.bankName = some bank
  imageUrl : ∃ url, nullableText dto.imageUrl.toOption = some url

/-- With an amount that its column takes, a row is stored exactly when the other columns take
their values and the id is new. -/
theorem exists_create_ok_iff {column : Numeric}
    (takes : Numeric.ofText dto.amount.toFixed2 = some column) :
    (∃ saved after, (create reader generated dto).run db = (.ok saved, after)) ↔
      dto.FitsBesidesAmount reader ∧ generated.id ∉ db.transactions.map TransactionRow.id := by
  simp only [create_eq_ok]
  refine ⟨?_, ?_⟩
  · intro created
    obtain ⟨saved, after, row, converts, inserts, -⟩ := created
    obtain ⟨⟨id, -⟩, user, name, -, number, instant, bank, image⟩ := toRow_eq_some.mp converts
    refine ⟨⟨⟨_, user⟩, ⟨_, name⟩, ⟨_, number⟩, ⟨_, instant⟩, ⟨_, bank⟩, ⟨_, image⟩⟩, ?_⟩
    rw [← id]
    exact (Db.insert_eq_some.mp inserts).1
  · intro conditions
    obtain ⟨⟨⟨user, first⟩, ⟨name, second⟩, ⟨number, third⟩, ⟨instant, fourth⟩, ⟨bank, fifth⟩,
      ⟨image, sixth⟩⟩, fresh⟩ := conditions
    have converts : (dto.toNew reader).toRow reader generated = some ⟨generated.id, user, name,
        column, number, instant, bank, dto.confidence, dto.isDuplicate, image,
        generated.createdAt⟩ :=
      toRow_eq_some.mpr ⟨⟨rfl, rfl, rfl, rfl⟩, first, second, takes, third, fourth, fifth, sixth⟩
    exact ⟨_, _, _, converts, dif_pos fresh, rfl⟩

/-! ## The lookup -/

/-- The lookup compares keys. -/
theorem findDuplicate_of_key (known : keyOf reader transactionId amount timestamp = some key) :
    (findDuplicate reader transactionId amount timestamp).run db =
      (.ok ((db.transactions.find? (·.key = key)).map TransactionRow.toEntity), db) := by
  obtain ⟨number, cents, instant⟩ := keyOf_eq_some.mp known
  obtain ⟨text, textRead, numberKey⟩ := Option.map_eq_some_iff.mp number
  obtain ⟨numeric, centsStored, centsKey⟩ := Option.map_eq_some_iff.mp cents
  have lookup : DuplicateLookup.of reader transactionId amount timestamp =
      some ⟨text, (key.cents : ℚ) / 100, key.timestamp⟩ := by
    simp only [DuplicateLookup.of, textRead, instant, Numeric.literal_toFixed2 centsStored,
      centsKey]
    rfl
  have compares : ∀ row : TransactionRow,
      DuplicateLookup.Matches ⟨text, (key.cents : ℚ) / 100, key.timestamp⟩ row ↔
        row.key = key := by
    intro row
    rw [TransactionKey.ext_iff, ← numberKey]
    have hundredths : (row.amount.cents : ℚ) / 100 = (key.cents : ℚ) / 100 ↔
        row.amount.cents = key.cents := by
      rw [div_left_inj' (by norm_num), Int.cast_inj]
    exact and_congr Iff.rfl (and_congr hundredths Iff.rfl)
  simp only [findDuplicate, Procedure.run_query, lookup, compares]

end BirrTrack.Transactions
