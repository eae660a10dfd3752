import BirrTrack.Transactions.Entity

/-! # Data transfer objects

The bodies and queries of the transactions API. An optional property passes its checks
when it is absent and also when it is null.
-/

namespace BirrTrack.Transactions

open Js

structure CreateTransactionDto where
  telegramUserId : String
  telegramName : String
  amount : Number
  transactionId : String
  timestamp : String
  bankName : String
  confidence : Number
  isDuplicate : Bool
  imageUrl : Property String

structure UpdateTransactionDto where
  amount : Property Number
  transactionId : Property String
  timestamp : Property String
  bankName : Property String
  confidence : Property Number
  imageUrl : Property String

structure GetTransactionsQueryDto where
  page : ℕ
  limit : ℕ
  startDate : Option String
  endDate : Option String
  telegramUserId : Option String

structure TransactionSummaryDto where
  totalRevenue : Option Number
  transactionCount : Option Number

def MAX_PAGE_LIMIT : ℕ := 100

def GetTransactionsQueryDto.getEffectiveLimit (query : GetTransactionsQueryDto) : ℕ :=
  min query.limit MAX_PAGE_LIMIT

/-- The variation selectors U+FE0E and U+FE0F. -/
def isSelector (c : Char) : Bool := c.toNat = 0xFE0E ∨ c.toNat = 0xFE0F

/-- How often a variation selector follows another character. -/
def presentationSequences : List Char → ℕ
  | first :: second :: rest =>
      presentationSequences (second :: rest) +
        if isSelector second ∧ ¬ isSelector first then 1 else 0
  | _ => 0

/-- `@Length(low, high)`, which counts a character and its variation selector once. -/
def HasLength (low high : ℕ) (text : String) : Prop :=
  low ≤ text.length - presentationSequences text.toList ∧
    text.length - presentationSequences text.toList ≤ high

instance (low high : ℕ) (text : String) : Decidable (HasLength low high text) :=
  inferInstanceAs (Decidable (_ ∧ _))

/-- `@IsOptional()` together with the checks of a value. -/
def Property.Optional {α : Type} (check : α → Prop) : Property α → Prop
  | value a => check a
  | _ => True

/-- The checks of a PATCH body, with `IsDateString` as given by the validator. -/
structure UpdateTransactionDto.Valid (isDateString : String → Prop) (dto : UpdateTransactionDto) :
    Prop where
  amount : dto.amount.Optional fun amount => amount.TwoDecimals ∧ 0 ≤ amount.val
  transactionId : dto.transactionId.Optional (HasLength 1 128)
  timestamp : dto.timestamp.Optional isDateString
  bankName : dto.bankName.Optional (HasLength 1 120)
  confidence : dto.confidence.Optional fun confidence => 0 ≤ confidence.val ∧ confidence.val ≤ 1
  imageUrl : dto.imageUrl.Optional fun _ => True

/-- The checks of a POST body. -/
structure CreateTransactionDto.Valid (isDateString : String → Prop) (dto : CreateTransactionDto) :
    Prop where
  telegramUserId : dto.telegramUserId ≠ ""
  telegramName : dto.telegramName ≠ "" ∧ HasLength 1 255 dto.telegramName
  amount : dto.amount.TwoDecimals ∧ 0 ≤ dto.amount.val
  transactionId : dto.transactionId ≠ "" ∧ HasLength 1 128 dto.transactionId
  timestamp : isDateString dto.timestamp
  bankName : dto.bankName ≠ "" ∧ HasLength 1 120 dto.bankName
  confidence : 0 ≤ dto.confidence.val ∧ dto.confidence.val ≤ 1
  imageUrl : dto.imageUrl.Optional fun _ => True

/-- What the validator documents of `IsDateString`: it takes the ISO 8601 texts of dates, and
these have no zero byte. -/
structure TakesIsoDates (isDateString : String → Prop) : Prop where
  toISOString : ∀ t : TimeValue, 0 ≤ t.getUTCFullYear → t.getUTCFullYear ≤ 9999 →
    isDateString t.toISOString
  noZero : ∀ text, isDateString text → Char.ofNat 0 ∉ text.toList

/-- `dto[field]` -/
def UpdateTransactionDto.get (dto : UpdateTransactionDto) : EditableTransactionField → Value
  | .amount => dto.amount.toValue .number
  | .transactionId => dto.transactionId.toValue .string
  | .timestamp => dto.timestamp.toValue .string
  | .bankName => dto.bankName.toValue .string
  | .confidence => dto.confidence.toValue .number
  | .imageUrl => dto.imageUrl.toValue .string

end BirrTrack.Transactions
