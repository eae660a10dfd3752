import BirrTrack.Processing.Numerals
import BirrTrack.Processing.LabelledIds
import BirrTrack.Processing.Recording
import BirrTrack.Transactions.Validation

/-! # The contract of a job

A job hands `create` a value that no validation pipe has seen. What the patterns find
respects the rules of a POST body, apart from the length of an id; what the language model
finds is handed on as it is.
-/

namespace BirrTrack.Processing

open Js Transactions Backtracking

/-! ## What the patterns find -/

/-- A timestamp is the text of a date with a year of four digits. -/
def IsIsoTimestamp (text : String) : Prop :=
  ∃ t : TimeValue, text = t.toISOString ∧ 0 ≤ t.getUTCFullYear ∧ t.getUTCFullYear ≤ 9999

theorem date_dateUTC {year monthIndex day hour minute second : ℤ} {midnight t : TimeValue}
    (start : dateUTC year monthIndex day 0 0 0 = some midnight)
    (found : dateUTC year monthIndex day hour minute second = some t) (hours : 0 ≤ hour ∧ hour ≤ 23)
    (minutes : 0 ≤ minute ∧ minute ≤ 59) (seconds : 0 ≤ second ∧ second ≤ 59) :
    t.date = midnight.date := by
  have startMs := timeClip_eq_some start
  have foundMs := timeClip_eq_some found
  have sameDay : t.ms / msPerDay = midnight.ms / msPerDay := by
    rw [startMs, foundMs]
    simp only [makeTime, msPerDay]
    omega
  rw [TimeValue.date, TimeValue.date, sameDay]

theorem isReasonableYMD_spec {year monthIndex day : ℤ}
    (reasonable : isReasonableYMD year monthIndex day = true) :
    1970 ≤ year ∧ year ≤ 2100 ∧ ∃ midnight, dateUTC year monthIndex day 0 0 0 = some midnight ∧
      midnight.getUTCFullYear = year := by
  unfold isReasonableYMD at reasonable
  split at reasonable
  next => cases reasonable
  next inside =>
    cases start : dateUTC year monthIndex day 0 0 0 with
    | none =>
        rw [start] at reasonable
        cases reasonable
    | some midnight =>
        rw [start, Option.any_some, decide_eq_true_eq] at reasonable
        exact ⟨by omega, by omega, midnight, rfl, reasonable.1⟩

theorem isIsoTimestamp_midnight {year monthIndex day : ℤ} {text : String}
    (reasonable : isReasonableYMD year monthIndex day = true)
    (found : toIsoUtcMidnight year monthIndex day = some text) : IsIsoTimestamp text := by
  obtain ⟨low, high, midnight, start, same⟩ := isReasonableYMD_spec reasonable
  rw [toIsoUtcMidnight, start, Option.map_some, Option.some_inj] at found
  exact ⟨midnight, found.symm, by omega, by omega⟩

theorem isIsoTimestamp_withTime {m : Cursor} {year monthIndex day : ℤ} {text : String}
    (found : toIsoWithTime m year monthIndex day = some text) : IsIsoTimestamp text := by
  unfold toIsoWithTime at found
  by_cases reasonable : isReasonableYMD year monthIndex day = true
  · rw [if_neg (not_not.mpr reasonable)] at found
    by_cases clock : (m.text 4).isSome ∧ (m.text 5).isSome
    · rw [if_pos clock] at found
      generalize (if (m.text 6).isSome then parseInt m 6 else 0) = second at found
      by_cases outside : parseInt m 4 < 0 ∨ parseInt m 4 > 23 ∨ parseInt m 5 < 0 ∨
          parseInt m 5 > 59 ∨ second < 0 ∨ second > 59
      · rw [if_pos outside] at found
        cases found
      · rw [if_neg outside, Option.map_eq_some_iff] at found
        obtain ⟨t, time, rfl⟩ := found
        obtain ⟨low, high, midnight, start, same⟩ := isReasonableYMD_spec reasonable
        have date := date_dateUTC start time (by omega) (by omega) (by omega)
        have year_eq : t.getUTCFullYear = year := (congrArg Calendar.Date.year date).trans same
        exact ⟨t, rfl, by omega, by omega⟩
    · rw [if_neg clock] at found
      exact isIsoTimestamp_midnight reasonable found
  · rw [if_pos reasonable] at found
    cases found

/-- Every timestamp that is found in a text is the text of a date. -/
theorem isIsoTimestamp_of_extract {ocrText : List Char} {text : String}
    (found : extractTimestampFromText ocrText = some text) : IsIsoTimestamp text := by
  simp only [extractTimestampFromText, Option.or_eq_some_iff] at found
  rcases found with named | ⟨-, named | ⟨-, numeric | ⟨-, numeric⟩⟩⟩
  · simp only [tryParseDayMonthNameYear, Option.bind_eq_bind, Option.bind_eq_some_iff] at named
    obtain ⟨m, -, monthIndex, -, named⟩ := named
    by_cases reasonable : isReasonableYMD (parseInt m 3) monthIndex (parseInt m 1) = true
    · rw [if_pos reasonable] at named
      exact isIsoTimestamp_midnight reasonable named
    · rw [if_neg reasonable] at named
      cases named
  · simp only [tryParseMonthNameDayYear, Option.bind_eq_bind, Option.bind_eq_some_iff] at named
    obtain ⟨m, -, monthIndex, -, named⟩ := named
    by_cases reasonable : isReasonableYMD (parseInt m 3) monthIndex (parseInt m 2) = true
    · rw [if_pos reasonable] at named
      exact isIsoTimestamp_midnight reasonable named
    · rw [if_neg reasonable] at named
      cases named
  · simp only [tryParseYearMonthDay, Option.bind_eq_bind, Option.bind_eq_some_iff] at numeric
    obtain ⟨m, -, numeric⟩ := numeric
    exact isIsoTimestamp_withTime numeric
  · simp only [tryParseNumericDelimitedDate, Option.bind_eq_bind, Option.bind_eq_some_iff]
      at numeric
    obtain ⟨m, -, numeric⟩ := numeric
    exact isIsoTimestamp_withTime numeric

/-! ## What a job hands on -/

/-- The fields of the language model's answer, if it gave one. -/
def foundBy : Except Failure LlmExtractResponse → ExtractedFields
  | .ok data => extractFields data
  | .error _ => ⟨none, none, none, none⟩

/-- The fields of one source, and where it has none those of the other. -/
def ExtractedFields.or (first second : ExtractedFields) : ExtractedFields where
  bankName := first.bankName.or second.bankName
  amount := first.amount.or second.amount
  transactionId := first.transactionId.or second.transactionId
  timestamp := first.timestamp.or second.timestamp

theorem complete_eq_some_iff {fields : ExtractedFields} {found : CompleteFields} :
    fields.complete = some found ↔ fields.bankName = some found.bankName ∧
      fields.amount = some found.amount ∧ fields.transactionId = some found.transactionId ∧
        fields.timestamp = some found.timestamp := by
  obtain ⟨bankName, amount, transactionId, timestamp⟩ := found
  simp only [ExtractedFields.complete, Option.bind_eq_bind, Option.bind_eq_some_iff,
    Option.pure_def, Option.some_inj, CompleteFields.mk.injEq]
  refine ⟨?_, ?_⟩
  · intro found
    obtain ⟨_, bank, _, amount, _, id, _, time, rfl, rfl, rfl, rfl⟩ := found
    exact ⟨bank, amount, id, time⟩
  · intro found
    obtain ⟨bank, amount, id, time⟩ := found
    exact ⟨_, bank, _, amount, _, id, _, time, rfl, rfl, rfl, rfl⟩

/-- A receipt is complete when the two sources together have all its fields. -/
theorem parse_complete_iff {text : List Char} {answer : Except Failure LlmExtractResponse}
    {found : CompleteFields} :
    (∃ parsed, parse text answer = .ok parsed ∧ parsed.complete = some found) ↔
      ((parseWithRegex Number.ofRat text).or (foundBy answer)).complete = some found := by
  cases alone : (parseWithRegex Number.ofRat text).complete with
  | some fields =>
      obtain ⟨bank, amount, id, time⟩ := complete_eq_some_iff.mp alone
      have whole : ((parseWithRegex Number.ofRat text).or (foundBy answer)).complete =
          some fields := by
        rw [complete_eq_some_iff, ExtractedFields.or, bank, amount, id, time]
        exact ⟨rfl, rfl, rfl, rfl⟩
      rw [whole]
      simp only [parse, alone, Option.isSome_some, ↓reduceIte, Except.ok.injEq, exists_eq_left']
  | none =>
      cases answer with
      | error failure =>
          have same : (parseWithRegex Number.ofRat text).or (foundBy (.error failure)) =
              parseWithRegex Number.ofRat text := by
            simp only [ExtractedFields.or, foundBy, Option.or_none]
          rw [same, alone]
          refine ⟨?_, fun impossible => by cases impossible⟩
          intro parsed
          obtain ⟨parsed, parses, -⟩ := parsed
          simp only [parse, alone, Option.isSome_none, Bool.false_eq_true, ↓reduceIte] at parses
          cases parses
      | ok data =>
          simp only [parse, alone, Option.isSome_none, Bool.false_eq_true, ↓reduceIte,
            Procedure.ok_bind]
          split
          next => exact ⟨fun ⟨_, rfl, same⟩ => same, fun same => ⟨_, rfl, same⟩⟩
          next => exact ⟨fun ⟨_, rfl, same⟩ => same, fun same => ⟨_, rfl, same⟩⟩

/-- A literal between zero and one is a Number between them. -/
theorem numberLiteral_bounds {q : ℚ} (finite : (Number.ofRat q).isSome = true) (low : 0 ≤ q)
    (high : q ≤ 1) : 0 ≤ (numberLiteral q finite).val ∧ (numberLiteral q finite).val ≤ 1 := by
  have rounded := Number.round_of_ofRat (Option.some_get finite).symm
  have one : Binary64.round 1 = some 1 := by decide +kernel
  obtain ⟨v, le, same⟩ := Binary64.round_mono low high one
  obtain rfl := Option.some.inj (same.symm.trans rounded)
  exact ⟨Binary64.round_nonneg low rounded, le⟩

theorem confidence_of_parse {text : List Char} {answer : Except Failure LlmExtractResponse}
    {parsed : ParsedTransaction} (parses : parse text answer = .ok parsed) :
    0 ≤ parsed.confidence.val ∧ parsed.confidence.val ≤ 1 := by
  by_cases alone : (parseWithRegex Number.ofRat text).complete.isSome = true
  · simp only [parse, alone, ↓reduceIte, Except.ok.injEq] at parses
    rw [← parses]
    exact numberLiteral_bounds _ (by norm_num) (by norm_num)
  · simp only [parse, alone, Bool.false_eq_true, ↓reduceIte, Procedure.bind_eq_ok] at parses
    obtain ⟨data, -, parses⟩ := parses
    split at parses
    next =>
      cases parses
      exact numberLiteral_bounds _ (by norm_num) (by norm_num)
    next =>
      cases parses
      exact numberLiteral_bounds _ (by norm_num) (by norm_num)

section Job

variable (server : Server) (attempt : Attempt) (payload : ImageProcessingJobPayload)

/-- The text that a job reads in an image. -/
def ReadsText (text : String) : Prop :=
  ∃ fileUrl imageBuffer,
    resolveTelegramFileDownloadUrl server.config attempt payload.fileId = .ok fileUrl ∧
      downloadTelegramFileFromUrl attempt fileUrl = .ok imageBuffer ∧
        extractText server.config attempt imageBuffer = .ok text

/-- In a state of the tables the job calls `create` with this value. -/
def CallsCreate (world : World) (dto : CreateTransactionDto) : Prop :=
  ∃ receipt duplicate, receiptOf server attempt payload = .ok (some receipt) ∧
    (disturbed (attempt.faults .findDuplicate) <| inDb <| findDuplicate server.reader
      receipt.transactionId receipt.amount receipt.timestamp).run world = (.ok duplicate, world) ∧
    dto = { receipt with isDuplicate := duplicate.isSome }

/-- What the job would do with a value for `create`. -/
def createAndAnnounce (dto : CreateTransactionDto) : Procedure World Failure Unit := do
  let transaction ← disturbed (attempt.faults .create) <| inDb <|
    create server.reader attempt.generated dto
  disturbed (attempt.faults .emit) (emitTransactionNew (toResponse transaction))

variable {server attempt payload}

/-- A job that calls `create` does nothing else before it. -/
theorem CallsCreate.run {world : World} {dto : CreateTransactionDto}
    (calls : CallsCreate server attempt payload world dto) :
    (processImageJob server attempt payload).run world =
      (createAndAnnounce server attempt dto).run world := by
  obtain ⟨receipt, duplicate, read, looked, rfl⟩ := calls
  rw [run_processImageJob, read]
  exact Procedure.run_bind_ok looked

/-- The lookup reads only, also where it fails. -/
theorem looks_only {world : World} {receipt : CreateTransactionDto} :
    ((disturbed (attempt.faults .findDuplicate) <| inDb <| findDuplicate server.reader
      receipt.transactionId receipt.amount receipt.timestamp).run world).2 = world := by
  have reads : ((inDb (findDuplicate server.reader receipt.transactionId receipt.amount
      receipt.timestamp)).run world).2 = world := rfl
  cases attempt.faults .findDuplicate with
  | none => exact reads
  | some moment =>
      cases moment with
      | before => rfl
      | after =>
          rcases looked : (inDb (findDuplicate server.reader receipt.transactionId receipt.amount
            receipt.timestamp)).run world with ⟨result, after⟩
          rw [looked] at reads
          cases result with
          | error failure =>
              exact (congrArg Prod.snd (Procedure.run_bind_error looked)).trans reads
          | ok duplicate => exact (congrArg Prod.snd (Procedure.run_bind_ok looked)).trans reads

/-- A job that does not call `create` leaves everything as it was. -/
theorem run_of_not_callsCreate {world : World}
    (none : ∀ dto, ¬ CallsCreate server attempt payload world dto) :
    ((processImageJob server attempt payload).run world).2 = world := by
  rw [run_processImageJob]
  cases read : receiptOf server attempt payload with
  | error failure => rfl
  | ok receipt =>
      cases receipt with
      | none => rfl
      | some receipt =>
          have unchanged := @looks_only server attempt world receipt
          rcases looked : (disturbed (attempt.faults .findDuplicate) <| inDb <|
            findDuplicate server.reader receipt.transactionId receipt.amount
              receipt.timestamp).run world with ⟨result, after⟩
          rw [looked] at unchanged
          obtain rfl : after = world := unchanged
          cases result with
          | error failure => exact congrArg Prod.snd (Procedure.run_bind_error looked)
          | ok duplicate => exact absurd ⟨receipt, duplicate, read, looked, rfl⟩ (none _)

/-- The receipt of a job that reads a text. -/
theorem complete_of_receiptOf {text : String} (reads : ReadsText server attempt payload text)
    {receipt : CreateTransactionDto}
    (read : receiptOf server attempt payload = .ok (some receipt)) :
    ∃ found confidence fileUrl,
      ((parseWithRegex Number.ofRat text.toList).or
        (foundBy (llmResponse server.config attempt text))).complete = some found ∧
      (0 ≤ confidence.val ∧ confidence.val ≤ 1) ∧
      receipt = createDto payload found confidence false fileUrl := by
  obtain ⟨fileUrl, imageBuffer, resolved, downloaded, extracted⟩ := reads
  rw [receiptOf, resolved, Procedure.ok_bind, downloaded, Procedure.ok_bind, extracted,
    Procedure.ok_bind, Procedure.bind_eq_ok] at read
  obtain ⟨parsed, parses, made⟩ := read
  obtain ⟨found, complete, rfl⟩ := Option.map_eq_some_iff.mp (Except.ok.inj made)
  exact ⟨found, parsed.confidence, fileUrl, parse_complete_iff.mp ⟨parsed, parses, complete⟩,
    confidence_of_parse parses, rfl⟩

theorem exists_receiptOf {text : String} (reads : ReadsText server attempt payload text)
    {found : CompleteFields}
    (complete : ((parseWithRegex Number.ofRat text.toList).or
      (foundBy (llmResponse server.config attempt text))).complete = some found) :
    ∃ confidence fileUrl, receiptOf server attempt payload =
      .ok (some (createDto payload found confidence false fileUrl)) := by
  obtain ⟨fileUrl, imageBuffer, resolved, downloaded, extracted⟩ := reads
  obtain ⟨parsed, parses, complete⟩ := parse_complete_iff.mpr complete
  refine ⟨parsed.confidence, fileUrl, ?_⟩
  rw [receiptOf, resolved, Procedure.ok_bind, downloaded, Procedure.ok_bind, extracted,
    Procedure.ok_bind, parses, Procedure.ok_bind, complete]
  rfl

end Job

/-! ## The rules of a POST body -/

/-- The payload's texts satisfy the rules of a POST body. -/
def ImageProcessingJobPayload.Valid (payload : ImageProcessingJobPayload) : Prop :=
  payload.telegramUserId ≠ "" ∧ payload.telegramName ≠ "" ∧ HasLength 1 255 payload.telegramName

/-- The fields of a text and of the language model's reply can be looked up together. -/
def CanBeLookedUp (reader : DateReader) (text : List Char) (reply : ExtractedFields) : Prop :=
  ∃ found, ((parseWithRegex Number.ofRat text).or reply).complete = some found ∧
    (DuplicateLookup.of reader found.transactionId found.amount found.timestamp).isSome = true

/-- The id in the text is not too long, and what the reply has instead of a field of the text
satisfies the field's rules. -/
structure FitsContract (isDateString : String → Prop) (text : List Char)
    (reply : ExtractedFields) : Prop where
  token : ∀ before label separators token rest,
    ReadsId text before label separators token rest → token.length ≤ 128
  transactionId : (parseWithRegex Number.ofRat text).transactionId = none →
    ∀ id, reply.transactionId = some id → HasLength 1 128 id
  amount : (parseWithRegex Number.ofRat text).amount = none →
    ∀ amount, reply.amount = some amount → amount.TwoDecimals ∧ 0 ≤ amount.val
  timestamp : (parseWithRegex Number.ofRat text).timestamp = none →
    ∀ timestamp, reply.timestamp = some timestamp → isDateString timestamp
  bankName : (parseWithRegex Number.ofRat text).bankName = none →
    ∀ bankName, reply.bankName = some bankName → HasLength 1 120 bankName

/-- A text without variation selectors is as long as it looks. -/
theorem presentationSequences_eq_zero {text : List Char} (none : ∀ c ∈ text, isSelector c = false) :
    presentationSequences text = 0 := by
  induction text with
  | nil => rfl
  | cons first rest ih =>
      have later := ih fun c member => none c (List.mem_cons_of_mem first member)
      cases rest with
      | nil => rfl
      | cons second rest =>
          have plain := none second (List.mem_cons_of_mem first List.mem_cons_self)
          rw [presentationSequences, later, plain]
          rfl

theorem hasLength_of_isIdChar {token : List Char} (isToken : ∀ c ∈ token, isIdChar c = true) :
    HasLength 1 128 (String.ofList token) ↔ 1 ≤ token.length ∧ token.length ≤ 128 := by
  have none : ∀ c ∈ token, isSelector c = false := by
    intro c member
    have letter := isToken c member
    by_contra selector
    rw [Bool.not_eq_false, isSelector, decide_eq_true_eq] at selector
    rw [isIdChar, Bool.or_eq_true, decide_eq_true_eq] at letter
    rcases letter with letter | rfl
    · have range := toNat_of_isAlphanum letter
      omega
    · exact absurd selector (by decide)
  rw [HasLength, String.toList_ofList, presentationSequences_eq_zero none, String.length_ofList,
    Nat.sub_zero]

theorem transactionId_fits {text : List Char} {id : String}
    (found : (parseWithRegex Number.ofRat text).transactionId = some id) :
    HasLength 1 128 id ↔ ∀ before label separators token rest,
      ReadsId text before label separators token rest → token.length ≤ 128 := by
  rw [transactionId_eq, Option.map_eq_some_iff] at found
  obtain ⟨capture, captured, rfl⟩ := found
  obtain ⟨before, label, separators, token, rest, reads, rfl⟩ :=
    transactionIdCapture_eq_some_iff.mp captured
  have isToken := reads.reads.reads.isToken
  have long := reads.reads.reads.long
  rw [hasLength_of_isIdChar isToken]
  refine ⟨?_, ?_⟩
  · intro length before' label' separators' token' rest' other
    have same := captured.symm.trans (transactionIdCapture_eq_some_iff.mpr
      ⟨_, _, _, _, _, other, rfl⟩)
    have equal : token = token' := congrArg Capture.text (Option.some.inj same)
    exact equal ▸ length.2
  · intro short
    exact ⟨by omega, short before label separators token rest reads⟩

theorem amount_fits {text : List Char} {amount : Number}
    (found : (parseWithRegex Number.ofRat text).amount = some amount) :
    amount.TwoDecimals ∧ 0 ≤ amount.val := by
  obtain ⟨before, whole, digits, rest, reads⟩ := exists_reads_of_amount found
  rw [reads.amount_eq] at found
  exact Number.twoDecimals_of_ofRat found

theorem timestamp_fits {isDateString : String → Prop} (validator : TakesIsoDates isDateString)
    {text : List Char} {timestamp : String}
    (found : (parseWithRegex Number.ofRat text).timestamp = some timestamp) :
    isDateString timestamp := by
  obtain ⟨t, rfl, low, high⟩ := isIsoTimestamp_of_extract found
  exact validator.toISOString t low high

theorem bankName_fits {text : List Char} {bankName : String}
    (found : (parseWithRegex Number.ofRat text).bankName = some bankName) :
    HasLength 1 120 bankName := by
  have all : ∀ bank ∈ BANK_NAMES, HasLength 1 120 bank := by decide
  have listed : extractBankName text = some bankName := found
  exact all bankName (List.mem_of_find?_eq_some listed)

theorem ne_empty_of_hasLength {text : String} {high : ℕ} (length : HasLength 1 high text) :
    text ≠ "" := by
  rintro rfl
  exact absurd length.1 (by decide)

/-- A lookup that goes through is for an id, an amount and an instant. -/
theorem looked_iff {fault : Option Fault} {reader : DateReader} {transactionId timestamp : String}
    {amount : Number} {world : World} :
    (∃ duplicate, (disturbed fault <| inDb <|
      findDuplicate reader transactionId amount timestamp).run world = (.ok duplicate, world)) ↔
      fault = none ∧ (DuplicateLookup.of reader transactionId amount timestamp).isSome = true := by
  have looked : (inDb (findDuplicate reader transactionId amount timestamp)).run world =
      ((findDuplicate reader transactionId amount timestamp).run world.db |>.1, world) := rfl
  cases fault with
  | none =>
      rw [disturbed, looked, findDuplicate, Procedure.run_query]
      cases DuplicateLookup.of reader transactionId amount timestamp with
      | none => simp
      | some lookup => simp
  | some moment =>
      refine ⟨?_, fun impossible => by cases impossible.1⟩
      intro ran
      obtain ⟨duplicate, ran⟩ := ran
      cases moment with
      | before => cases ran
      | after =>
          obtain ⟨_, _, -, thrown⟩ := Procedure.run_bind_eq_ok.mp ran
          cases thrown

section Fields

variable {isDateString : String → Prop} {text : List Char} {reply : ExtractedFields}
  {found : CompleteFields}

/-- What fits the contract satisfies the rules, from whichever source it is. -/
theorem FitsContract.valid (fits : FitsContract isDateString text reply)
    (validator : TakesIsoDates isDateString)
    (complete : ((parseWithRegex Number.ofRat text).or reply).complete = some found) :
    (found.amount.TwoDecimals ∧ 0 ≤ found.amount.val) ∧ HasLength 1 128 found.transactionId ∧
      isDateString found.timestamp ∧ HasLength 1 120 found.bankName := by
  obtain ⟨bankName, amount, transactionId, timestamp⟩ := complete_eq_some_iff.mp complete
  simp only [ExtractedFields.or, Option.or_eq_some_iff] at bankName amount transactionId timestamp
  refine ⟨?_, ?_, ?_, ?_⟩
  · rcases amount with here | ⟨none, there⟩
    · exact amount_fits here
    · exact fits.amount none _ there
  · rcases transactionId with here | ⟨none, there⟩
    · exact (transactionId_fits here).mpr fits.token
    · exact fits.transactionId none _ there
  · rcases timestamp with here | ⟨none, there⟩
    · exact timestamp_fits validator here
    · exact fits.timestamp none _ there
  · rcases bankName with here | ⟨none, there⟩
    · exact bankName_fits here
    · exact fits.bankName none _ there

theorem second_eq {α : Type} {first second : Option α} {a b : α} (whole : first.or second = some a)
    (none : first = none) (there : second = some b) : a = b := by
  rw [none, Option.none_or, there] at whole
  exact (Option.some.inj whole).symm

/-- The rules for the found fields are rules for their sources. -/
theorem fitsContract_of_valid
    (complete : ((parseWithRegex Number.ofRat text).or reply).complete = some found)
    (amountFits : found.amount.TwoDecimals ∧ 0 ≤ found.amount.val)
    (idFits : HasLength 1 128 found.transactionId) (timeFits : isDateString found.timestamp)
    (bankFits : HasLength 1 120 found.bankName) : FitsContract isDateString text reply := by
  obtain ⟨bankName, amount, transactionId, timestamp⟩ := complete_eq_some_iff.mp complete
  refine ⟨?_, ?_, ?_, ?_, ?_⟩
  · intro before label separators token rest reads
    have captured : (parseWithRegex Number.ofRat text).transactionId =
        some (String.ofList token) := (reads.finds_iff Number.ofRat token).mpr rfl
    have same : String.ofList token = found.transactionId := by
      rw [ExtractedFields.or, captured, Option.some_or] at transactionId
      exact Option.some.inj transactionId
    exact (transactionId_fits captured).mp (same ▸ idFits) before label separators token rest reads
  · intro none id there
    exact second_eq transactionId none there ▸ idFits
  · intro none number there
    exact second_eq amount none there ▸ amountFits
  · intro none time there
    exact second_eq timestamp none there ▸ timeFits
  · intro none bank there
    exact second_eq bankName none there ▸ bankFits

end Fields

/-- Whatever a job hands to `create` satisfies the rules of a POST body. -/
def RespectsContract (isDateString : String → Prop) (server : Server) (attempt : Attempt)
    (payload : ImageProcessingJobPayload) : Prop :=
  ∀ world dto, CallsCreate server attempt payload world dto → dto.Valid isDateString

/-- The rules of a POST body hold of what a job hands to `create` exactly when they hold of
what the patterns leave to the language model and of the length of an id in the text. -/
theorem callsCreate_valid_iff {server : Server} {attempt : Attempt}
    {payload : ImageProcessingJobPayload} {text : String} {isDateString : String → Prop}
    (validator : TakesIsoDates isDateString) (valid : payload.Valid)
    (reads : ReadsText server attempt payload text) :
    RespectsContract isDateString server attempt payload ↔
      (attempt.faults .findDuplicate = none →
        CanBeLookedUp server.reader text.toList
          (foundBy (llmResponse server.config attempt text)) →
        FitsContract isDateString text.toList
          (foundBy (llmResponse server.config attempt text))) := by
  refine ⟨?_, ?_⟩
  · intro respects noFault lookup
    obtain ⟨found, complete, lookup⟩ := lookup
    obtain ⟨confidence, fileUrl, read⟩ := exists_receiptOf reads complete
    obtain ⟨duplicate, looked⟩ := looked_iff.mpr ⟨noFault, lookup⟩
    have dto := respects ⟨.empty, []⟩ _ ⟨_, duplicate, read, looked, rfl⟩
    exact fitsContract_of_valid complete dto.amount dto.transactionId.2 dto.timestamp dto.bankName.2
  · intro fits world dto calls
    obtain ⟨receipt, duplicate, read, looked, rfl⟩ := calls
    obtain ⟨found, confidence, fileUrl, complete, confident, rfl⟩ :=
      complete_of_receiptOf reads read
    obtain ⟨noFault, lookup⟩ := looked_iff.mp ⟨duplicate, looked⟩
    obtain ⟨amount, transactionId, timestamp, bankName⟩ :=
      (fits noFault ⟨found, complete, lookup⟩).valid validator complete
    exact ⟨valid.1, valid.2, amount, ⟨ne_empty_of_hasLength transactionId, transactionId⟩,
      timestamp, ⟨ne_empty_of_hasLength bankName, bankName⟩, confident, trivial⟩

/-! ## Samples -/

theorem samplePayload_valid : samplePayload.Valid := ⟨by decide, by decide, by decide⟩

/-- The sample job respects the rules. -/
theorem sample_respects :
    RespectsContract isIsoText sampleServer (sampleAttempt "t1" noFaults) samplePayload := by
  have reads : ReadsText sampleServer (sampleAttempt "t1" noFaults) samplePayload
      "CBE 2026-04-08 ref A12345 50.00" :=
    ⟨"https://api.telegram.org/file/bot123:abc/photos/1.jpg", [], rfl, rfl, rfl⟩
  refine (callsCreate_valid_iff takesIsoDates_isIsoText samplePayload_valid reads).mpr ?_
  intro _ lookup
  have id : (parseWithRegex Number.ofRat "CBE 2026-04-08 ref A12345 50.00".toList).transactionId =
      some "A12345" := by decide +kernel
  exact ⟨(transactionId_fits id).mp (by decide), fun none => absurd none (by decide +kernel),
    fun none => absurd none (by decide +kernel), fun none => absurd none (by decide +kernel),
    fun none => absurd none (by decide +kernel)⟩

def negativeAmount : Number := ⟨-5, by decide +kernel⟩

/-- Services that find a receipt without an amount, and a language model that finds a
negative one. -/
def negativeServices : Services where
  getFile := sampleServices.getFile
  download := sampleServices.download
  ocr := fun _ _ => .ok (some "CBE 2026-04-08 ref A12345")
  extract := fun _ _ => .ok {
    bank_name := .null
    amount := .value negativeAmount
    transaction_id := .null
    timestamp := .null
    bankName := .undefined
    transactionId := .undefined }

def negativeAttempt : Attempt := ⟨negativeServices, ⟨"t1", sampleInstant⟩, noFaults⟩

/-- The texts of a reply are not empty. -/
def ExtractedFields.NonemptyTexts (reply : ExtractedFields) : Prop :=
  ∀ text, reply.bankName = some text ∨ reply.transactionId = some text ∨
    reply.timestamp = some text → text ≠ ""

theorem not_respects_negativeAttempt : ¬ ∀ server attempt payload text,
    ImageProcessingJobPayload.Valid payload → ReadsText server attempt payload text →
      (foundBy (llmResponse server.config attempt text)).NonemptyTexts →
        RespectsContract isIsoText server attempt payload := by
  intro respects
  have reads : ReadsText llmServer negativeAttempt samplePayload "CBE 2026-04-08 ref A12345" :=
    ⟨"https://api.telegram.org/file/bot123:abc/photos/1.jpg", [], rfl, rfl, rfl⟩
  have nonempty : (foundBy (llmResponse llmServer.config negativeAttempt
      "CBE 2026-04-08 ref A12345")).NonemptyTexts := by
    intro text given
    rcases given with given | given | given <;> cases given
  obtain ⟨found, complete⟩ := Option.isSome_iff_exists.mp
    (by decide +kernel : ((parseWithRegex Number.ofRat "CBE 2026-04-08 ref A12345".toList).or
      (foundBy (llmResponse llmServer.config negativeAttempt
        "CBE 2026-04-08 ref A12345"))).complete.isSome = true)
  obtain ⟨-, amount, id, time⟩ := complete_eq_some_iff.mp complete
  have negative : negativeAmount = found.amount :=
    Option.some.inj ((by decide +kernel : some negativeAmount = _).trans amount)
  have lookup : (DuplicateLookup.of llmServer.reader found.transactionId found.amount
      found.timestamp).isSome = true := by
    have idText : "A12345" = found.transactionId :=
      Option.some.inj ((by decide +kernel : some "A12345" = _).trans id)
    have timeText : "2026-04-08T00:00:00.000Z" = found.timestamp :=
      Option.some.inj ((by decide +kernel : some "2026-04-08T00:00:00.000Z" = _).trans time)
    rw [← idText, ← timeText, ← negative]
    decide +kernel
  obtain ⟨confidence, fileUrl, read⟩ := exists_receiptOf reads complete
  obtain ⟨duplicate, looked⟩ := looked_iff.mpr ⟨rfl, lookup⟩
  have dto := respects _ _ _ _ samplePayload_valid reads nonempty ⟨.empty, []⟩ _
    ⟨_, duplicate, read, looked, rfl⟩
  have nonneg : 0 ≤ found.amount.val := dto.amount.2
  rw [← negative] at nonneg
  exact absurd nonneg (by decide +kernel)

end BirrTrack.Processing
