import BirrTrack.Foundation.Backtracking
import BirrTrack.Transactions.Entity

/-! # The parsing service

`ParsingService`: the patterns that read an amount, a transaction id, a timestamp and a
bank name from the text of a receipt, and the merge with the language model's fields.
Texts are lists of characters here.
-/

namespace BirrTrack.Processing

open Js Transactions Backtracking

/-! ## Character classes -/

/-- `\s`, which is also what `trim` removes. -/
def isSpace (c : Char) : Bool :=
  let n := c.toNat
  9 ≤ n ∧ n ≤ 13 ∨ n = 0x20 ∨ n = 0xA0 ∨ n = 0x1680 ∨ 0x2000 ≤ n ∧ n ≤ 0x200A ∨ n = 0x2028 ∨
    n = 0x2029 ∨ n = 0x202F ∨ n = 0x205F ∨ n = 0x3000 ∨ n = 0xFEFF

/-- `\s` -/
def space : Pattern := .char isSpace

/-- `\d` -/
def digit : Pattern := .char Char.isDigit

/-- A dash, a slash or a point. -/
def delimiter : Pattern := .char fun c => c = '-' ∨ c = '/' ∨ c = '.'

/-- `text.trim()` -/
def trim (text : List Char) : List Char :=
  ((text.dropWhile isSpace).reverse.dropWhile isSpace).reverse

/-- `text.toLowerCase()`, exact wherever it makes an ASCII character: apart from the
ASCII capitals those are the Kelvin sign and the dotted capital I. -/
def toLowerCase (text : List Char) : List Char :=
  text.flatMap fun c =>
    if c.toNat = 0x212A then ['k']
    else if c.toNat = 0x130 then ['i', Char.ofNat 0x307]
    else [c.toLower]

/-! ## Digits -/

/-- Lowercasing keeps digits. -/
theorem toLower_of_isDigit {c : Char} (isDigit : c.isDigit = true) : c.toLower = c := by
  have range := Decimal.toNat_of_isDigit isDigit
  apply dif_neg
  intro upper
  have capital : 65 ≤ c.toNat := upper.1
  omega

/-- No blank is a digit. -/
theorem isDigit_of_isSpace {c : Char} (blank : isSpace c = true) : c.isDigit = false := by
  by_contra digit
  have range := Decimal.toNat_of_isDigit (by simpa using digit)
  simp only [isSpace, decide_eq_true_eq] at blank
  omega

theorem isLower_of_isDigit {c : Char} (isDigit : c.isDigit = true) : c.toLower.isLower = false := by
  have range := Decimal.toNat_of_isDigit isDigit
  rw [toLower_of_isDigit isDigit, ← Bool.not_eq_true]
  intro lower
  have small : 97 ≤ c.toNat := of_decide_eq_true (Bool.and_eq_true_iff.mp lower).1
  omega

/-! ## Patterns -/

/-- `\.[0-9]{1,2}` -/
def decimals : Pattern := .seq (.lit '.') (.between 1 2 digit)

/-- `[0-9]{1,3}(?:,[0-9]{3})*(?:\.[0-9]{1,2})` -/
def groupedNumeral : Pattern :=
  .seq (.between 1 3 digit) (.seq (.star (.seq (.lit ',') (.times 3 digit))) decimals)

/-- `[0-9]+(?:\.[0-9]{1,2})` -/
def plainNumeral : Pattern := .seq (.plus digit) decimals

/-- `(?:ETB|Birr|Br)?` -/
def currency : Pattern := .opt (.oneOf [.wordI "ETB", .wordI "Birr", .wordI "Br"])

def amountRegex : Pattern :=
  .seq currency (.seq (.star space) (.group 1 (.alt groupedNumeral plainNumeral)))

/-- `[A-Za-z0-9-]` -/
def isIdChar (c : Char) : Bool := c.isAlphanum || c = '-'

def transactionIdRegex : Pattern :=
  .concat [
    .oneOf [
      .seq (.wordI "tx") (.opt (.oneOf [.litI 'n', .wordI "id"])),
      .seq (.wordI "transaction") (.opt (.seq (.star space) (.wordI "id"))),
      .wordI "reference",
      .wordI "ref"],
    .star (.char fun c => isSpace c ∨ c = ':' ∨ c = '#' ∨ c = '-'),
    .group 1 (.atLeast 6 (.char isIdChar))]

/-- English month names, abbreviated or full. -/
def MONTH_NAME_PATTERN : Pattern :=
  .oneOf [
    .seq (.wordI "Jan") (.opt (.wordI "uary")),
    .seq (.wordI "Feb") (.opt (.wordI "ruary")),
    .seq (.wordI "Mar") (.opt (.wordI "ch")),
    .seq (.wordI "Apr") (.opt (.wordI "il")),
    .wordI "May",
    .seq (.wordI "Jun") (.opt (.wordI "e")),
    .seq (.wordI "Jul") (.opt (.wordI "y")),
    .seq (.wordI "Aug") (.opt (.wordI "ust")),
    .seq (.wordI "Sep") (.opt (.seq (.wordI "t") (.opt (.wordI "ember")))),
    .seq (.wordI "Oct") (.opt (.wordI "ober")),
    .seq (.wordI "Nov") (.opt (.wordI "ember")),
    .seq (.wordI "Dec") (.opt (.wordI "ember"))]

/-- `\b(\d{1,2})delimiter(month)delimiter(\d{4})\b` -/
def dayMonthNameYear : Pattern :=
  .concat [.boundary, .group 1 (.between 1 2 digit), delimiter, .group 2 MONTH_NAME_PATTERN,
    delimiter, .group 3 (.times 4 digit), .boundary]

/-- `\b(month)delimiter?\s+(\d{1,2})(?:st|nd|rd|th)?[,/\s]+(\d{4})\b` -/
def monthNameDayYear : Pattern :=
  .concat [.boundary, .group 1 MONTH_NAME_PATTERN, .opt delimiter, .plus space,
    .group 2 (.between 1 2 digit),
    .opt (.oneOf [.wordI "st", .wordI "nd", .wordI "rd", .wordI "th"]),
    .plus (.char fun c => c = ',' ∨ c = '/' ∨ isSpace c), .group 3 (.times 4 digit), .boundary]

/-- `(\d{1,2}):(\d{2})(?::(\d{2}))?` -/
def clock : Pattern :=
  .seq (.group 4 (.between 1 2 digit)) (.seq (.lit ':') (.seq (.group 5 (.times 2 digit))
    (.opt (.seq (.lit ':') (.group 6 (.times 2 digit))))))

/-- `\b(\d{4})delimiter(\d{1,2})delimiter(\d{1,2})(?:[T\s]+clock)?\b` -/
def yearMonthDay : Pattern :=
  .seq .boundary (.seq (.group 1 (.times 4 digit)) (.seq delimiter
    (.seq (.group 2 (.between 1 2 digit)) (.seq delimiter (.seq (.group 3 (.between 1 2 digit))
      (.seq (.opt (.seq (.plus (.char fun c => c = 'T' ∨ isSpace c)) clock)) .boundary))))))

/-- `\b(\d{1,2})delimiter(\d{1,2})delimiter(\d{4})(?:\s+clock)?\b` -/
def numericDelimitedDate : Pattern :=
  .concat [.boundary, .group 1 (.between 1 2 digit), delimiter, .group 2 (.between 1 2 digit),
    delimiter, .group 3 (.times 4 digit), .opt (.seq (.plus space) clock), .boundary]

/-! ## Timestamps -/

/-- `Number.parseInt(m[index], 10)` of a group of digits that took part in the match. -/
def parseInt (m : Cursor) (index : ℕ) : ℤ := Decimal.value ((m.text index).getD [])

def isReasonableYMD (year monthIndex day : ℤ) : Bool :=
  if year < 1970 ∨ year > 2100 ∨ monthIndex < 0 ∨ monthIndex > 11 ∨ day < 1 ∨ day > 31 then false
  else (dateUTC year monthIndex day 0 0 0).any fun d =>
    d.getUTCFullYear = year ∧ d.getUTCMonth = monthIndex ∧ d.getUTCDate = day

def toIsoUtcMidnight (year monthIndex day : ℤ) : Option String :=
  (dateUTC year monthIndex day 0 0 0).map TimeValue.toISOString

/-- The part that the two formats with a time of day share: the date, with the time in
the groups 4 to 6 if they took part in the match. -/
def toIsoWithTime (m : Cursor) (year monthIndex day : ℤ) : Option String :=
  if ¬ isReasonableYMD year monthIndex day then none
  else if (m.text 4).isSome ∧ (m.text 5).isSome then
    let h := parseInt m 4
    let min := parseInt m 5
    let s := if (m.text 6).isSome then parseInt m 6 else 0
    if h < 0 ∨ h > 23 ∨ min < 0 ∨ min > 59 ∨ s < 0 ∨ s > 59 then none
    else (dateUTC year monthIndex day h min s).map TimeValue.toISOString
  else toIsoUtcMidnight year monthIndex day

def monthNames : List (List Char) :=
  ["jan", "feb", "mar", "apr", "may", "jun", "jul", "aug", "sep", "oct", "nov", "dec"].map
    String.toList

def monthNameToIndex (raw : List Char) : Option ℤ :=
  let key := ((toLowerCase raw).filter (· ≠ '.')).take 3
  (monthNames.idxOf? key).map fun index : ℕ => (index : ℤ)

def tryParseDayMonthNameYear (text : List Char) : Option String := do
  let m ← dayMonthNameYear.exec text
  let day := parseInt m 1
  let monthIndex ← monthNameToIndex ((m.text 2).getD [])
  let year := parseInt m 3
  if isReasonableYMD year monthIndex day then toIsoUtcMidnight year monthIndex day else none

def tryParseMonthNameDayYear (text : List Char) : Option String := do
  let m ← monthNameDayYear.exec text
  let monthIndex ← monthNameToIndex ((m.text 1).getD [])
  let day := parseInt m 2
  let year := parseInt m 3
  if isReasonableYMD year monthIndex day then toIsoUtcMidnight year monthIndex day else none

def tryParseYearMonthDay (text : List Char) : Option String := do
  let m ← yearMonthDay.exec text
  toIsoWithTime m (parseInt m 1) (parseInt m 2 - 1) (parseInt m 3)

/-- Day and month index of a numeric date: the part above twelve is the day, and the
first part where neither is. -/
def dayAndMonthIndex (a b : ℤ) : ℤ × ℤ :=
  if a > 12 then (a, b - 1) else if b > 12 then (b, a - 1) else (a, b - 1)

def tryParseNumericDelimitedDate (text : List Char) : Option String := do
  let m ← numericDelimitedDate.exec text
  let (day, monthIndex) := dayAndMonthIndex (parseInt m 1) (parseInt m 2)
  toIsoWithTime m (parseInt m 3) monthIndex day

/-- The first format with a valid date wins. -/
def extractTimestampFromText (ocrText : List Char) : Option String :=
  (tryParseDayMonthNameYear ocrText).or <|
    (tryParseMonthNameDayYear ocrText).or <|
      (tryParseYearMonthDay ocrText).or (tryParseNumericDelimitedDate ocrText)

/-! ## Receipts -/

def BANK_NAMES : List String :=
  ["CBE", "Commercial Bank of Ethiopia", "Awash", "Abyssinia", "Dashen", "Hibret", "Telebirr"]

def extractBankName (ocrText : List Char) : Option String :=
  BANK_NAMES.find? fun bank => toLowerCase bank.toList <:+: toLowerCase ocrText

/-- The fields that patterns or the language model find. -/
structure ExtractedFields where
  bankName : Option String
  amount : Option Number
  transactionId : Option String
  timestamp : Option String

structure ParsedTransaction extends ExtractedFields where
  confidence : Number
  usedLlm : Bool

/-- `amountMatch[1]` -/
def amountCapture (ocrText : List Char) : Option (List Char) :=
  (amountRegex.exec ocrText).bind fun m => m.text 1

/-- The fields that the patterns find, under a given rounding of decimal literals. -/
def parseWithRegex (rounding : ℚ → Option Number) (ocrText : List Char) : ExtractedFields where
  amount := (amountCapture ocrText).bind fun capture =>
    Number.ofText rounding (capture.filter (· ≠ ','))
  transactionId := (transactionIdRegex.exec ocrText).bind fun m => (m.text 1).map String.ofList
  timestamp := extractTimestampFromText ocrText
  bankName := extractBankName ocrText

/-- The language model service's answer; either spelling of a name may be there. -/
structure LlmExtractResponse where
  bank_name : Property String
  amount : Property Number
  transaction_id : Property String
  timestamp : Property String
  bankName : Property String
  transactionId : Property String

/-- `LlmService.extractFields`, once the service has answered. -/
def extractFields (data : LlmExtractResponse) : ExtractedFields where
  bankName := data.bankName.toOption.or data.bank_name.toOption
  amount := data.amount.toOption
  transactionId := data.transactionId.toOption.or data.transaction_id.toOption
  timestamp := data.timestamp.toOption

/-- A receipt with all critical fields. -/
structure CompleteFields where
  bankName : String
  amount : Number
  transactionId : String
  timestamp : String

/-- None if a critical field is null. -/
def ExtractedFields.complete (fields : ExtractedFields) : Option CompleteFields := do
  return {
    bankName := ← fields.bankName
    amount := ← fields.amount
    transactionId := ← fields.transactionId
    timestamp := ← fields.timestamp }

/-- A numeric literal of the source. -/
def numberLiteral (q : ℚ) (finite : (Number.ofRat q).isSome = true) : Number :=
  (Number.ofRat q).get finite

/-- Fields that the patterns miss come from the language model, which is only asked
then. -/
def parse (ocrText : List Char) (llm : Except Failure LlmExtractResponse) :
    Except Failure ParsedTransaction :=
  let regexParsed := parseWithRegex Number.ofRat ocrText
  if regexParsed.complete.isSome then
    .ok { regexParsed with
      confidence := numberLiteral (92 / 100) (by decide +kernel)
      usedLlm := false }
  else do
    let llmParsed := extractFields (← llm)
    let merged : ExtractedFields := {
      bankName := regexParsed.bankName.or llmParsed.bankName
      amount := regexParsed.amount.or llmParsed.amount
      transactionId := regexParsed.transactionId.or llmParsed.transactionId
      timestamp := regexParsed.timestamp.or llmParsed.timestamp }
    if merged.complete.isSome then
      return { merged with
        confidence := numberLiteral (78 / 100) (by decide +kernel)
        usedLlm := true }
    else
      return { merged with
        confidence := numberLiteral (55 / 100) (by decide +kernel)
        usedLlm := true }

end BirrTrack.Processing
