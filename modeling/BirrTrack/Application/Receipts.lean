import BirrTrack.Application.Contents
import BirrTrack.Processing.Contract
import BirrTrack.Processing.IsoInstants

/-! # Receipts from the photo to the table

What a row holds that a job inserted, when the extraction answers come from the OCR service: the
fields that the patterns find in the text of the photo, for the others those that the service found
in what its language model generated, and the time as the instant that the text or the service's
datetime denotes.
-/

namespace BirrTrack.Application

open Js Database Processing Transactions Telegram
open Python (Datetime Double Stripped)
open OcrService (Extraction)

/-! ## The answers of the OCR service -/

/-- What the extraction route answers with: the fields of a text that the language model generated,
or the fallback. -/
inductive Answer : Extraction → Prop where
  | extracted (limits : Python.Json.Limits) (isPrintable : Char → Bool) (rawOutput : List Char) :
      Answer (OcrService.llmExtract limits isPrintable rawOutput)
  | fallback : Answer OcrService.buildFallbackPayload

/-- The members of a response are those of the payload, and an amount is sent as the number it
is. -/
structure RespondsWith (payload : Extraction) (response : LlmExtractResponse) : Prop where
  bank_name : response.bank_name.toOption.map String.toList = payload.bankName
  amount : response.amount.toOption.map Number.val = payload.amount.bind Double.value
  transaction_id : response.transaction_id.toOption.map String.toList = payload.transactionId
  timestamp : response.timestamp.toOption.map String.toList = payload.timestamp
  bankName : response.bankName = .undefined
  transactionId : response.transactionId = .undefined

/-- The service that an attempt asks for the fields of a text is the OCR service. -/
def FromOcrService (services : Services) : Prop :=
  ∀ baseUrl ocrText response, services.extract baseUrl ocrText = .ok response →
    ∃ payload, Answer payload ∧ RespondsWith payload response

/-- The names of an answer are stripped, and its timestamp is a datetime's. -/
structure CleanFields (payload : Extraction) : Prop where
  bankName : ∀ name ∈ payload.bankName, name ≠ [] ∧ Stripped name
  transactionId : ∀ id ∈ payload.transactionId, id ≠ [] ∧ Stripped id
  timestamp : ∀ text ∈ payload.timestamp, ∃ moment : Datetime, text = moment.isoformat

/-- The fallback payload has clean fields. -/
theorem cleanFields_fallback : CleanFields OcrService.buildFallbackPayload where
  bankName _ absent := by cases absent
  transactionId _ absent := by cases absent
  timestamp _ absent := by cases absent

/-- So has every payload that is read from the model's text. -/
theorem cleanFields_of_parse {limits : Python.Json.Limits} {isPrintable : Char → Bool}
    {rawOutput : List Char} {payload : Extraction}
    (parsed : OcrService.parseExtractionOutput limits isPrintable rawOutput = .ok payload) :
    CleanFields payload := by
  obtain ⟨items, -, parsed⟩ := Procedure.bind_eq_ok.mp parsed
  obtain ⟨fields, normalized, parsed⟩ := Procedure.bind_eq_ok.mp parsed
  obtain ⟨amount, -, normalized⟩ := Procedure.bind_eq_ok.mp normalized
  cases normalized
  cases parsed
  refine ⟨fun name => OcrService.normalizeString_stripped,
    fun id => OcrService.normalizeString_stripped, ?_⟩
  intro text written
  obtain ⟨moment, -, same⟩ := OcrService.normalizeTimestamp_iso written
  exact ⟨moment, same.symm⟩

/-- Every payload the service answers with has clean fields. -/
theorem Answer.cleanFields {payload : Extraction} (answer : Answer payload) :
    CleanFields payload := by
  cases answer with
  | fallback => exact cleanFields_fallback
  | extracted limits isPrintable rawOutput =>
      rw [OcrService.llmExtract, OcrService.extractTransactionData]
      cases parsed : OcrService.parseExtractionOutput limits isPrintable rawOutput with
      | ok payload => exact cleanFields_of_parse parsed
      | error raised =>
          cases raised with
          | valueError message => exact cleanFields_fallback
          | jsonDecodeError => exact cleanFields_fallback
          | overflowError => exact cleanFields_fallback
          | recursionError => exact cleanFields_fallback

/-- The fields that the application takes over are those of a payload. -/
structure Conveys (fields : ExtractedFields) (payload : Extraction) : Prop where
  bankName : fields.bankName.map String.toList = payload.bankName
  amount : fields.amount.map Number.val = payload.amount.bind Double.value
  transactionId : fields.transactionId.map String.toList = payload.transactionId
  timestamp : fields.timestamp.map String.toList = payload.timestamp

/-- The client hands on the fields of the response. -/
theorem conveys_extractFields {payload : Extraction} {response : LlmExtractResponse}
    (responds : RespondsWith payload response) : Conveys (extractFields response) payload where
  bankName := by
    rw [extractFields, responds.bankName]
    exact responds.bank_name
  amount := responds.amount
  transactionId := by
    rw [extractFields, responds.transactionId]
    exact responds.transaction_id
  timestamp := responds.timestamp

/-- What an attempt has of the service for a text: the payload of the response that the service
gave to that very text, or none of the fields where the attempt got no response. -/
inductive AskedFor (config : Config) (attempt : Attempt) (text : String) : Extraction → Prop where
  | answered {response : LlmExtractResponse} {payload : Extraction} :
      llmResponse config attempt text = .ok response →
      attempt.services.extract (config.LLM_SERVICE_URL.getD "") text = .ok response →
      Answer payload → RespondsWith payload response → AskedFor config attempt text payload
  | unanswered {failure : Failure} : llmResponse config attempt text = .error failure →
      AskedFor config attempt text OcrService.buildFallbackPayload

section AskedFor

variable {config : Config} {attempt : Attempt} {text : String}

theorem AskedFor.cleanFields {payload : Extraction} (asked : AskedFor config attempt text payload) :
    CleanFields payload := by
  cases asked with
  | answered got gave answer responds => exact answer.cleanFields
  | unanswered failed => exact cleanFields_fallback

/-- A response that an attempt got is one that its service gave. -/
theorem extract_of_llmResponse {response : LlmExtractResponse}
    (got : llmResponse config attempt text = .ok response) :
    attempt.services.extract (config.LLM_SERVICE_URL.getD "") text = .ok response := by
  by_cases unset : config.LLM_SERVICE_URL.getD "" = ""
  · simp only [llmResponse, unset, ↓reduceIte] at got
    cases got
  · simp only [llmResponse, unset, ↓reduceIte] at got
    cases fault : attempt.faults .llm with
    | none =>
        rw [fault] at got
        exact got
    | some moment =>
        rw [fault] at got
        cases got

/-- The fields that an attempt takes over are those that it has of the service for the text. -/
theorem exists_conveys (served : FromOcrService attempt.services) :
    ∃ payload, AskedFor config attempt text payload ∧
      Conveys (foundBy (llmResponse config attempt text)) payload := by
  cases asked : llmResponse config attempt text with
  | error failure => exact ⟨_, .unanswered asked, rfl, rfl, rfl, rfl⟩
  | ok response =>
      have gave := extract_of_llmResponse asked
      obtain ⟨payload, answer, responds⟩ := served _ text response gave
      exact ⟨payload, .answered asked gave answer responds, conveys_extractFields responds⟩

end AskedFor

/-! ## What the patterns find -/

theorem stripped_of_isIdChar {token : List Char} (isToken : ∀ c ∈ token, isIdChar c = true) :
    Stripped token := by
  refine Python.stripped_of_forall fun c member => ?_
  rcases Bool.or_eq_true_iff.mp (isToken c member) with letter | dash
  · have range := toNat_of_isAlphanum letter
    simp only [Python.isSpace, decide_eq_false_iff_not]
    omega
  · rw [of_decide_eq_true dash]
    decide

/-- A number found by the patterns is not empty and has no blanks at its ends. -/
theorem stripped_transactionId {text : List Char} {id : String}
    (found : (parseWithRegex Number.ofRat text).transactionId = some id) :
    id.toList ≠ [] ∧ Stripped id.toList := by
  rw [transactionId_eq, Option.map_eq_some_iff] at found
  obtain ⟨capture, captured, rfl⟩ := found
  obtain ⟨before, label, separators, token, rest, reads, rfl⟩ :=
    transactionIdCapture_eq_some_iff.mp captured
  have long := reads.reads.reads.long
  have nonempty : token ≠ [] := List.ne_nil_of_length_pos (by omega)
  rw [String.toList_ofList]
  exact ⟨nonempty, stripped_of_isIdChar reads.reads.reads.isToken⟩

/-- So is a bank name. -/
theorem stripped_bankName {text : List Char} {bankName : String}
    (found : (parseWithRegex Number.ofRat text).bankName = some bankName) :
    bankName.toList ≠ [] ∧ Stripped bankName.toList := by
  have all : ∀ bank ∈ BANK_NAMES, bank.toList ≠ [] ∧ Python.strip bank.toList = bank.toList := by
    decide
  have listed : extractBankName text = some bankName := found
  obtain ⟨nonempty, stripped⟩ := all bankName (List.mem_of_find?_eq_some listed)
  exact ⟨nonempty, stripped ▸ Python.strip_stripped _⟩

/-- A name of either source has no white space around it. -/
theorem stripped_or {first : Option String} {second : Option (List Char)} {text : List Char}
    (found : (first.map String.toList).or second = some text)
    (ofFirst : ∀ name, first = some name → name.toList ≠ [] ∧ Stripped name.toList)
    (ofSecond : ∀ name ∈ second, name ≠ [] ∧ Stripped name) : text ≠ [] ∧ Stripped text := by
  rcases Option.or_eq_some_iff.mp found with its | ⟨-, others⟩
  · obtain ⟨name, same, rfl⟩ := Option.map_eq_some_iff.mp its
    exact ofFirst name same
  · exact ofSecond text others

/-- A text without white space around it is kept by its column as it is. -/
theorem value_eq_of_stripped {limit : ℕ} {text : String} {v : Varchar limit}
    (stored : Varchar.ofString limit text = some v) (stripped : Stripped text.toList) :
    v.value = text := by
  refine Varchar.value_of_getLast stored fun blank => ?_
  exact Bool.noConfusion (stripped.2 ' ' blank)

/-! ## The row of a receipt -/

/-- The instant that a datetime is read as: without an offset in the server's local time. -/
def IsInstantOf (reader : DateReader) (moment : Datetime) (instant : TimeValue) : Prop :=
  moment.offset.elim (instant.ms = wallOf moment - reader.localOffset (wallOf moment))
    fun difference => if 60000000 ∣ difference then instant.ms = wallOf moment - difference / 1000
      else reader.legacy (String.ofList moment.isoformat) = some instant

/-- The row holds what the patterns find in the text, and for a field they do not find what the
payload has; of the time what the driver sends, which is the same instant where the server's
offset from UTC has no seconds (`sent_eq_self_iff`). -/
structure HoldsFields (reader : DateReader) (text : List Char) (payload : Extraction)
    (row : TransactionRow) : Prop where
  bankName : ((parseWithRegex Number.ofRat text).bankName.map String.toList).or payload.bankName =
    some row.bankName.value.toList
  amount : ∃ amount : Number, ((parseWithRegex Number.ofRat text).amount.map Number.val).or
    (payload.amount.bind Double.value) = some amount.val ∧
      Numeric.ofText amount.toFixed2 = some row.amount
  transactionId : ((parseWithRegex Number.ofRat text).transactionId.map String.toList).or
    payload.transactionId = some row.transactionId.value.toList
  timestamp : ∃ t : TimeValue, row.timestamp.instant.ms = sent reader t.ms ∧
    (parseWithRegex Number.ofRat text).timestamp.elim
      (∃ moment : Datetime, payload.timestamp = some moment.isoformat ∧
        IsInstantOf reader moment t)
      fun written => written = t.toISOString

theorem isInstantOf_of_newDate {reader : DateReader} {moment : Datetime} {instant : TimeValue}
    (read : newDate reader (String.ofList moment.isoformat) = some instant) :
    IsInstantOf reader moment instant := by
  rw [newDate_isoformat] at read
  unfold IsInstantOf
  cases zone : moment.offset with
  | none =>
      rw [zone] at read
      exact timeClip_eq_some read
  | some difference =>
      rw [zone, Option.elim_some] at read
      rw [Option.elim_some]
      split
      next whole =>
        rw [if_pos whole] at read
        exact timeClip_eq_some read
      next parts => rwa [if_neg parts] at read

theorem holdsFields_of_complete {reader : DateReader} {text : List Char} {payload : Extraction}
    {reply : ExtractedFields} {found : CompleteFields} {row : TransactionRow}
    (clean : CleanFields payload) (conveys : Conveys reply payload)
    (complete : ((parseWithRegex Number.ofRat text).or reply).complete = some found)
    (bankName : Varchar.ofString 120 found.bankName = some row.bankName)
    (amount : Numeric.ofText found.amount.toFixed2 = some row.amount)
    (transactionId : Varchar.ofString 128 found.transactionId = some row.transactionId)
    (timestamp : Timestamptz.ofDate reader (newDate reader found.timestamp) =
      some row.timestamp) :
    HoldsFields reader text payload row := by
  obtain ⟨bank, sum, id, time⟩ := complete_eq_some_iff.mp complete
  obtain ⟨t, instant, shifted⟩ := Timestamptz.ofDate_eq_some.mp timestamp
  have names : ((parseWithRegex Number.ofRat text).bankName.map String.toList).or
      payload.bankName = some found.bankName.toList := by
    rw [← conveys.bankName, ← Option.map_or]
    exact congrArg (Option.map String.toList) bank
  have numbers : ((parseWithRegex Number.ofRat text).transactionId.map String.toList).or
      payload.transactionId = some found.transactionId.toList := by
    rw [← conveys.transactionId, ← Option.map_or]
    exact congrArg (Option.map String.toList) id
  refine ⟨?_, ⟨found.amount, ?_, amount⟩, ?_, t, shifted, ?_⟩
  · rw [names, value_eq_of_stripped bankName
      (stripped_or names (fun _ => stripped_bankName) clean.bankName).2]
  · rw [← conveys.amount, ← Option.map_or]
    exact congrArg (Option.map Number.val) sum
  · rw [numbers, value_eq_of_stripped transactionId
      (stripped_or numbers (fun _ => stripped_transactionId) clean.transactionId).2]
  · have time' : (parseWithRegex Number.ofRat text).timestamp.or reply.timestamp =
        some found.timestamp := time
    cases written : (parseWithRegex Number.ofRat text).timestamp with
    | some iso =>
        rw [written] at time'
        obtain rfl := Option.some.inj time'
        obtain ⟨read, same, -⟩ := isIsoTimestamp_of_extract written
        rw [same, newDate_toISOString] at instant
        rw [Option.elim_some, same, Option.some.inj instant]
    | none =>
        rw [written, Option.none_or] at time'
        have conveyed := conveys.timestamp
        rw [time', Option.map_some] at conveyed
        obtain ⟨moment, same⟩ := clean.timestamp _ conveyed.symm
        refine ⟨moment, by rw [← conveyed, same], isInstantOf_of_newDate ?_⟩
        rw [← same, String.ofList_toList]
        exact instant

/-! ## Runs -/

variable {settings : Settings} {past : List SystemEvent} {row : TransactionRow}

/-- An attempt at a queued photo read the text of the image, has a payload of the service for that
text, and inserted the row of what the patterns find there and of the payload. -/
def ReadOff (settings : Settings) (past : List SystemEvent) (row : TransactionRow) : Prop :=
  ∃ index attempt user photo text payload, QueuedAs settings past index user photo ∧
    .begin index attempt ∈ past ∧
    ReadsText settings.server attempt (payloadOf user photo) text ∧
    AskedFor settings.server.config attempt text payload ∧
    HoldsFields settings.server.reader text.toList payload row

/-- What the text and the payload have, the row has without white space around it. -/
theorem ReadOff.stripped (readOff : ReadOff settings past row) :
    (row.bankName.value.toList ≠ [] ∧ Stripped row.bankName.value.toList) ∧
      row.transactionId.value.toList ≠ [] ∧ Stripped row.transactionId.value.toList := by
  obtain ⟨_, _, _, _, _, _, -, -, -, asked, holds⟩ := readOff
  have clean := asked.cleanFields
  exact ⟨stripped_or holds.bankName (fun _ => stripped_bankName) clean.bankName,
    stripped_or holds.transactionId (fun _ => stripped_transactionId) clean.transactionId⟩

/-- An attempt that read a receipt read it in a text. -/
theorem exists_readsText {server : Server} {attempt : Attempt} {data : ImageProcessingJobPayload}
    {receipt : CreateTransactionDto} (read : receiptOf server attempt data = .ok (some receipt)) :
    ∃ text, ReadsText server attempt data text := by
  unfold receiptOf at read
  obtain ⟨fileUrl, resolved, read⟩ := Procedure.bind_eq_ok.mp read
  obtain ⟨imageBuffer, downloaded, read⟩ := Procedure.bind_eq_ok.mp read
  obtain ⟨text, extracted, -⟩ := Procedure.bind_eq_ok.mp read
  exact ⟨text, fileUrl, imageBuffer, resolved, downloaded, extracted⟩

/-- A row that was not posted was read off a photo. -/
theorem readOff_of_inserted (inserted : Inserted settings past row)
    (served : ∀ index attempt, .begin index attempt ∈ past → FromOcrService attempt.services) :
    (∃ generated dto, .post generated dto ∈ past ∧
      (dto.toNew settings.server.reader).toRow settings.server.reader generated = some row) ∨
    ReadOff settings past row := by
  cases inserted with
  | posted request converts => exact Or.inl ⟨_, _, request, converts⟩
  | @read index attempt user photo receipt isDuplicate row queued begun reads converts =>
      obtain ⟨text, readsText⟩ := exists_readsText reads
      obtain ⟨found, confidence, fileUrl, complete, -, rfl⟩ := complete_of_receiptOf readsText reads
      obtain ⟨payload, asked, conveys⟩ := exists_conveys (served index attempt begun)
      obtain ⟨-, -, -, amount, transactionId, timestamp, bankName, -⟩ := toRow_eq_some.mp converts
      exact Or.inr ⟨index, attempt, user, photo, text, payload, queued, begun, readsText, asked,
        holdsFields_of_complete asked.cleanFields conveys complete bankName amount transactionId
          timestamp⟩

/-- In a run whose extraction answers come from the OCR service, every row that was not posted was
inserted with what the patterns find in the text of a queued photo and, for the rest, with what the
service answered for that text; its bank and its id are not empty and have no white space around
them, its time is the one of the text or of the service's datetime as the driver sends it, and no
column changed but by a PATCH request. -/
theorem run_receipts (settings : Settings) {events : List SystemEvent} {system : System}
    (ran : (application settings).run .initial events = some system)
    (served : ∀ index attempt, .begin index attempt ∈ events → FromOcrService attempt.services) :
    ∀ row ∈ system.world.db.transactions, ∃ inserted, Sourced settings events inserted row ∧
      ((∃ generated dto, .post generated dto ∈ events ∧
          (dto.toNew settings.server.reader).toRow settings.server.reader generated =
            some inserted) ∨
        ReadOff settings events inserted ∧
          (inserted.bankName.value.toList ≠ [] ∧ Stripped inserted.bankName.value.toList) ∧
          inserted.transactionId.value.toList ≠ [] ∧
            Stripped inserted.transactionId.value.toList) := by
  intro row member
  obtain ⟨inserted, source, sourced⟩ := (traced_run ran).rows row member
  refine ⟨inserted, sourced, ?_⟩
  rcases readOff_of_inserted source served with posted | readOff
  · exact Or.inl posted
  · exact Or.inr ⟨readOff, readOff.stripped⟩

/-! ## A sample run -/

/-- What a language model may generate for a receipt. -/
def sampleOutput : List Char :=
  "Here: \x7b\"bank_name\": \" CBE \", \"timestamp\": \"08/04/2026 14:30\"\x7d".toList

/-- The answer of the OCR service to that. -/
def sampleResponse : LlmExtractResponse where
  bank_name := .value "CBE"
  amount := .null
  transaction_id := .null
  timestamp := .value "2026-04-08T14:30:00"
  bankName := .undefined
  transactionId := .undefined

/-- Services that read a receipt without a date. -/
def datelessServices : Services where
  getFile := sampleServices.getFile
  download := sampleServices.download
  ocr := fun _ _ => .ok (some "ref A12345 50.00")
  extract := fun _ _ => .ok sampleResponse

theorem datelessServices_fromOcrService : FromOcrService datelessServices := by
  intro baseUrl ocrText response answered
  cases answered
  refine ⟨_, .extracted OcrService.sampleLimits OcrService.isAsciiPrintable sampleOutput, ?_⟩
  have extracted : OcrService.extractJsonDict OcrService.sampleLimits sampleOutput =
      .ok [("bank_name".toList, .str " CBE ".toList),
        ("timestamp".toList, .str "08/04/2026 14:30".toList)] := rfl
  have parsed :=
    @OcrService.parseExtractionOutput_of_dict _ OcrService.isAsciiPrintable _ _ extracted
  refine ⟨?_, ?_, ?_, ?_, rfl, rfl⟩
  · rw [OcrService.llmExtract, OcrService.extractTransactionData, parsed]
    rfl
  · rw [OcrService.llmExtract, OcrService.extractTransactionData, parsed]
    rfl
  · rw [OcrService.llmExtract, OcrService.extractTransactionData, parsed]
    rfl
  · rw [OcrService.llmExtract, OcrService.extractTransactionData, parsed]
    decide +kernel

/-- A photo is received, and its row gets the bank and the time of the OCR service's answer. -/
def datelessRun : List SystemEvent := [
  .webhook undisturbed "" (.message ⟨some sampleUser, .photo [samplePhoto]⟩),
  .begin 0 ⟨datelessServices, ⟨"only", sampleInstant⟩, noFaults⟩, .advance 0, .advance 0,
  .advance 0, .settle 0]

theorem datelessRun_receipts : ∃ system,
    (application ⟨llmServer, none, 1⟩).run .initial datelessRun = some system ∧
      system.world.db.transactions.length = 1 ∧
      ∀ row ∈ system.world.db.transactions, ∃ inserted,
        Sourced ⟨llmServer, none, 1⟩ datelessRun inserted row ∧
          ((∃ generated dto, .post generated dto ∈ datelessRun ∧
              (dto.toNew llmServer.reader).toRow llmServer.reader generated = some inserted) ∨
            ReadOff ⟨llmServer, none, 1⟩ datelessRun inserted ∧
              (inserted.bankName.value.toList ≠ [] ∧ Stripped inserted.bankName.value.toList) ∧
              inserted.transactionId.value.toList ≠ [] ∧
                Stripped inserted.transactionId.value.toList) := by
  have evaluated : ((application ⟨llmServer, none, 1⟩).run .initial datelessRun).any (fun system =>
      system.world.db.transactions.length = 1) = true := by
    decide +kernel
  obtain ⟨system, ran, count⟩ := (Option.any_eq_true _ _).mp evaluated
  refine ⟨system, ran, of_decide_eq_true count, run_receipts ⟨llmServer, none, 1⟩ ran ?_⟩
  intro index attempt begun
  simp only [datelessRun, List.mem_cons, SystemEvent.begin.injEq, reduceCtorEq, List.not_mem_nil,
    or_false, false_or] at begun
  rw [begun.2]
  exact datelessServices_fromOcrService

end BirrTrack.Application
