import BirrTrack.Transactions.Creation
import BirrTrack.Transactions.Storable

/-! # What validated bodies still need

A body that passes the validators may hold a value that its column does not take.
`validated_fits_iff` says which values these are.
-/

namespace BirrTrack.Transactions

open Js Database

variable {reader : DateReader} {isDateString : String → Prop} {db : Db}

/-- The row of a POST body can be stored in every table where its id is new. -/
def CreateFits (reader : DateReader) (dto : CreateTransactionDto) : Prop :=
  ∀ generated (db : Db), generated.id ∉ db.transactions.map TransactionRow.id →
    ∃ saved after, (create reader generated dto).run db = (.ok saved, after)

/-- A PATCH body can be applied to every row, by every editor whose name the log takes. -/
def UpdateFits (reader : DateReader) (dto : UpdateTransactionDto) : Prop :=
  ∀ (db : Db) id row editedBy, db.find id = some row → FitsVarchar 120 editedBy →
    ∃ response after, (update reader id dto editedBy).run db = (.ok response, after)

/-- Validated bodies fit the table. -/
def ValidationSuffices (reader : DateReader) (isDateString : String → Prop) : Prop :=
  (∀ dto : CreateTransactionDto, dto.Valid isDateString → CreateFits reader dto) ∧
    ∀ dto : UpdateTransactionDto, dto.Valid isDateString → UpdateFits reader dto

/-- An integer of 64 bits as `bigint` reads it. -/
def IsBigint (text : String) : Prop :=
  ∃ n, IsInteger text.toList n ∧ -2 ^ 63 ≤ n ∧ n < 2 ^ 63

/-- What the validators of a POST body leave open. -/
structure CreateTransactionDto.WithinColumns (reader : DateReader) (dto : CreateTransactionDto) :
    Prop where
  telegramUserId : IsBigint dto.telegramUserId
  telegramName : FitsVarchar 255 dto.telegramName
  amount : dto.amount.val < 10 ^ 12
  transactionId : FitsVarchar 128 dto.transactionId
  timestamp : DenotesInstant reader dto.timestamp
  bankName : FitsVarchar 120 dto.bankName
  imageUrl : ∀ url, dto.imageUrl = .value url → Char.ofNat 0 ∉ url.toList

/-- What the validators of a PATCH body leave open. -/
structure UpdateTransactionDto.WithinColumns (reader : DateReader) (dto : UpdateTransactionDto) :
    Prop where
  notNull : dto.amount ≠ .null ∧ dto.transactionId ≠ .null ∧ dto.bankName ≠ .null ∧
    dto.confidence ≠ .null
  amount : ∀ amount, dto.amount = .value amount → amount.val < 10 ^ 12
  transactionId : ∀ text, dto.transactionId = .value text → FitsVarchar 128 text
  timestamp : ∀ text, dto.timestamp = .value text → DenotesInstant reader text
  bankName : ∀ text, dto.bankName = .value text → FitsVarchar 120 text
  imageUrl : ∀ url, dto.imageUrl = .value url → Char.ofNat 0 ∉ url.toList

/-! ## Amounts -/

/-- A validated amount is rounded to hundredths below the column's bound exactly when it is
itself below it. -/
theorem hundredths_lt_iff {amount : Number} (places : amount.TwoDecimals)
    (nonneg : 0 ≤ amount.val) :
    Decimal.hundredths amount.val < 10 ^ 14 ↔ amount.val < 10 ^ 12 := by
  refine ⟨?_, ?_⟩
  · intro small
    rw [Decimal.hundredths, Int.floor_lt] at small
    push_cast at small
    linarith
  · intro small
    obtain ⟨cents, text, rounded⟩ :=
      Number.literal_toString_of_twoDecimals nonneg (small.trans (by norm_num)) places
    obtain ⟨q, literal, rounds⟩ := Number.literal_toString amount
    rw [text] at literal
    cases literal
    have atMost : Decimal.hundredths amount.val ≤ 10 ^ 14 := by
      rw [← Int.lt_add_one_iff, Decimal.hundredths, Int.floor_lt]
      push_cast
      linarith
    refine lt_of_le_of_ne atMost fun full => ?_
    -- Otherwise the text of the amount denotes the bound, and so does the amount.
    have bound : (cents : ℚ) / 100 = 10 ^ 12 := by
      have cast : (cents : ℚ) = 10 ^ 14 := by
        rw [rounded] at full
        exact_mod_cast full
      rw [cast]
      norm_num
    have exact : Binary64.Representable (10 ^ 12) := by
      exact_mod_cast @Binary64.representable_natCast (10 ^ 12) (by norm_num)
    rw [bound, exact, Option.some_inj] at rounds
    exact small.ne rounds.symm

/-! ## New rows -/

/-- A text is a bigint exactly by the grammar of the column's input. -/
theorem isSome_bigint {text : String} : (Bigint.ofText text).isSome = true ↔ IsBigint text := by
  simp only [Bigint.ofText, IsBigint, ← readInteger_eq_some]
  cases readInteger text.toList with
  | none => simp
  | some n =>
      simp only [Option.bind_some, Option.some_inj, exists_eq_left']
      split
      next bounded => exact iff_of_true rfl bounded
      next outside => exact iff_of_false Bool.false_ne_true outside

theorem isSome_nullableText {property : Property String} :
    (nullableText property.toOption).isSome = true ↔
      ∀ text, property = .value text → Char.ofNat 0 ∉ text.toList := by
  cases property with
  | undefined => simp [Property.toOption, nullableText]
  | null => simp [Property.toOption, nullableText]
  | value text =>
      simp only [Property.toOption, nullableText, Option.isSome_map, isSome_text,
        Property.value.injEq, forall_eq']

/-- A new row is stored exactly if each of its values fits its column. -/
theorem isSome_toRow_new {dto : CreateTransactionDto} (nonneg : 0 ≤ dto.amount.val)
    (generated : Generated) :
    ((dto.toNew reader).toRow reader generated).isSome = true ↔
      IsBigint dto.telegramUserId ∧ FitsVarchar 255 dto.telegramName ∧
        Decimal.hundredths dto.amount.val < 10 ^ 14 ∧ FitsVarchar 128 dto.transactionId ∧
          DenotesInstant reader dto.timestamp ∧ FitsVarchar 120 dto.bankName ∧
            ∀ url, dto.imageUrl = .value url → Char.ofNat 0 ∉ url.toList := by
  rw [← isSome_bigint, ← isSome_varchar, ← isSome_toFixed2 nonneg, ← isSome_varchar,
    ← isSome_timestamptz, ← isSome_varchar, ← isSome_nullableText]
  simp only [Option.isSome_iff_exists]
  refine ⟨?_, ?_⟩
  · intro stored
    obtain ⟨row, stored⟩ := stored
    obtain ⟨-, user, name, amount, number, instant, bank, image⟩ := toRow_eq_some.mp stored
    exact ⟨⟨_, user⟩, ⟨_, name⟩, ⟨_, amount⟩, ⟨_, number⟩, ⟨_, instant⟩, ⟨_, bank⟩, ⟨_, image⟩⟩
  · intro conditions
    obtain ⟨⟨user, first⟩, ⟨name, second⟩, ⟨amount, third⟩, ⟨number, fourth⟩, ⟨instant, fifth⟩,
      ⟨bank, sixth⟩, ⟨image, seventh⟩⟩ := conditions
    exact ⟨⟨generated.id, user, name, amount, number, instant, bank, dto.confidence,
      dto.isDuplicate, image, generated.createdAt⟩, toRow_eq_some.mpr
        ⟨⟨rfl, rfl, rfl, rfl⟩, first, second, third, fourth, fifth, sixth, seventh⟩⟩

/-- A row is stored under a new id when every column takes its value. -/
theorem createFits_iff {dto : CreateTransactionDto} :
    CreateFits reader dto ↔
      ∀ generated, ((dto.toNew reader).toRow reader generated).isSome = true := by
  refine ⟨?_, ?_⟩
  · intro fits generated
    obtain ⟨saved, after, ran⟩ := fits generated .empty List.not_mem_nil
    obtain ⟨row, stored, -⟩ := create_eq_ok.mp ran
    rw [stored]
    rfl
  · intro stores generated db fresh
    obtain ⟨row, stored⟩ := Option.isSome_iff_exists.mp (stores generated)
    have id : row.id = generated.id := (toRow_eq_some.mp stored).1.1
    rw [← id] at fresh
    exact ⟨_, _, create_eq_ok.mpr ⟨row, stored, dif_pos fresh, rfl⟩⟩

theorem createFits_iff_withinColumns {dto : CreateTransactionDto} (valid : dto.Valid isDateString) :
    CreateFits reader dto ↔ dto.WithinColumns reader := by
  obtain ⟨places, nonneg⟩ := valid.amount
  simp only [createFits_iff, isSome_toRow_new nonneg, hundredths_lt_iff places nonneg]
  refine ⟨?_, ?_⟩
  · intro fits
    obtain ⟨user, name, amount, number, instant, bank, image⟩ := fits ⟨"", epoch⟩
    exact ⟨user, name, amount, number, instant, bank, image⟩
  · intro within _
    exact ⟨within.telegramUserId, within.telegramName, within.amount, within.transactionId,
      within.timestamp, within.bankName, within.imageUrl⟩

/-! ## Changed rows -/

/-- An update of an existing row goes through when every given value can be stored. -/
theorem updateFits_iff {dto : UpdateTransactionDto} (nonneg : dto.NonnegAmount) :
    UpdateFits reader dto ↔ Storable reader dto := by
  refine ⟨?_, ?_⟩
  · intro fits
    obtain ⟨response, after, ran⟩ :=
      fits sampleDb "receipt" sampleRow "" find_sampleDb ⟨by decide, by decide⟩
    exact ((exists_update_ok_iff find_sampleDb nonneg).mp ⟨after, response, ran⟩).1
  · intro storable db id row editedBy found editor
    obtain ⟨after, response, ran⟩ :=
      (exists_update_ok_iff found nonneg).mpr ⟨storable, Or.inr editor⟩
    exact ⟨response, after, ran⟩

theorem storable_iff_withinColumns {dto : UpdateTransactionDto}
    (validator : TakesIsoDates isDateString) (valid : dto.Valid isDateString) :
    Storable reader dto ↔ dto.WithinColumns reader := by
  have amount : ∀ amount, dto.amount = .value amount →
      (Decimal.hundredths amount.val < 10 ^ 14 ↔ amount.val < 10 ^ 12) := by
    intro amount given
    have checked := valid.amount
    rw [given] at checked
    exact hundredths_lt_iff checked.1 checked.2
  refine ⟨?_, ?_⟩
  · intro storable
    refine ⟨⟨storable.amount.1, storable.transactionId.1, storable.bankName.1, storable.confidence⟩,
      ?_, storable.transactionId.2, fun text given => (storable.timestamp text given).2,
      storable.bankName.2, storable.imageUrl⟩
    exact fun given present => (amount given present).mp (storable.amount.2 given present)
  · intro within
    obtain ⟨⟨someAmount, someNumber, someBank, someConfidence⟩, small, number, instant, bank,
      image⟩ := within
    refine ⟨⟨someAmount, ?_⟩, ⟨someNumber, number⟩, ?_, ⟨someBank, bank⟩, someConfidence, image⟩
    · exact fun given present => (amount given present).mpr (small given present)
    · intro text given
      have checked := valid.timestamp
      rw [given] at checked
      exact ⟨validator.noZero text checked, instant text given⟩

/-- Validated bodies fit the table exactly when their values are within its columns. -/
theorem validated_fits_iff (reader : DateReader) (validator : TakesIsoDates isDateString) :
    (∀ dto : CreateTransactionDto, dto.Valid isDateString →
      (CreateFits reader dto ↔ dto.WithinColumns reader)) ∧
      ∀ dto : UpdateTransactionDto, dto.Valid isDateString →
        (UpdateFits reader dto ↔ dto.WithinColumns reader) := by
  refine ⟨fun dto valid => createFits_iff_withinColumns valid, fun dto valid => ?_⟩
  rw [updateFits_iff valid.nonnegAmount, storable_iff_withinColumns validator valid]

/-! ## Samples -/

/-- A validator that takes what `toISOString` writes. -/
def isIsoText (text : String) : Prop := ∃ t : TimeValue, text = t.toISOString

theorem takesIsoDates_isIsoText : TakesIsoDates isIsoText where
  toISOString := fun t _ _ => ⟨t, rfl⟩
  noZero := by
    intro text written
    obtain ⟨t, rfl⟩ := written
    exact not_mem_toISOString t rfl (by simp)

theorem representable_hundred : Binary64.Representable 100 := by
  exact_mod_cast @Binary64.representable_natCast 100 (by norm_num)

theorem representable_one : Binary64.Representable 1 := by
  exact_mod_cast @Binary64.representable_natCast 1 (by norm_num)

/-- A body for the sample receipt. -/
def receiptDto : CreateTransactionDto where
  telegramUserId := "7"
  telegramName := "Abebe"
  amount := ⟨100, representable_hundred⟩
  transactionId := "FT24015ABC"
  timestamp := epoch.instant.toISOString
  bankName := "CBE"
  confidence := ⟨1, representable_one⟩
  isDuplicate := false
  imageUrl := .undefined

theorem receiptDto_valid : receiptDto.Valid isIsoText where
  telegramUserId := by decide
  telegramName := by decide
  amount := ⟨Or.inl (by decide +kernel), by decide +kernel⟩
  transactionId := by decide
  timestamp := ⟨epoch.instant, rfl⟩
  bankName := by decide
  confidence := by decide +kernel
  imageUrl := trivial

/-- The body of the sample receipt fits the table. -/
theorem receiptDto_fits : CreateFits utcReader receiptDto := by
  refine ((validated_fits_iff utcReader takesIsoDates_isIsoText).1 receiptDto
    receiptDto_valid).mpr ?_
  refine ⟨⟨7, readInteger_eq_some.mp rfl, by decide⟩, ⟨by decide, by decide⟩, ?_,
    ⟨by decide, by decide⟩, ?_, ⟨by decide, by decide⟩, ?_⟩
  · norm_num [receiptDto]
  · exact ⟨epoch.instant, newDate_toISOString utcReader _, by decide, by decide⟩
  · intro url given
    cases given

/-- The body `{"amount": null}`. -/
def nullAmountDto : UpdateTransactionDto := { emptyDto with amount := .null }

/-- The validators take a body whose amount is null, and the column does not. -/
theorem not_validationSuffices : ¬ ValidationSuffices utcReader isIsoText := by
  intro fits
  have valid : nullAmountDto.Valid isIsoText :=
    ⟨trivial, trivial, trivial, trivial, trivial, trivial⟩
  have storable := (updateFits_iff valid.nonnegAmount).mp (fits.2 nullAmountDto valid)
  exact storable.amount.1 rfl

end BirrTrack.Transactions
