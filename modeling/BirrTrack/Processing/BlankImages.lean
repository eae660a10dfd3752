import BirrTrack.OcrService.Api
import BirrTrack.Processing.Recording
import Mathlib.Data.List.TakeWhile

/-! # Images without text

The text of an image may be empty, and then the request for the missing fields is one
that the OCR service rejects: the job fails where it should skip the image.
-/

namespace BirrTrack.Processing

open Js Transactions OcrService

/-- The text that `OcrService.extractText` returns for the recognised lines. -/
def ocrText (lines : List OCRLine) : String := trimmed (combinedText lines)

/-- What `/llm/extract` answers: axios throws on the status 422 of a rejected request. -/
def llmAnswer (reply : LLMExtractRequest → LlmExtractResponse) (text : String) :
    Except Failure LlmExtractResponse :=
  match LLMExtractRequest.validate text with
  | none => .error (.error "Request failed with status code 422")
  | some request => .ok (reply request)

section Reading

variable (server : Server) (attempt : Attempt) (payload : ImageProcessingJobPayload)
  (lines : List OCRLine) (reply : LLMExtractRequest → LlmExtractResponse)

/-- Every service can be reached, and the OCR service recognises these lines. -/
structure Reachable : Prop where
  download : ∃ fileUrl imageBuffer,
    resolveTelegramFileDownloadUrl server.config attempt payload.fileId = .ok fileUrl ∧
      downloadTelegramFileFromUrl attempt fileUrl = .ok imageBuffer
  ocrUrl : server.config.OCR_SERVICE_URL.getD "" ≠ ""
  ocr : attempt.faults .ocr = none ∧
    ∀ baseUrl image, attempt.services.ocr baseUrl image = .ok (some (combinedText lines))
  llmUrl : server.config.LLM_SERVICE_URL.getD "" ≠ ""
  llm : attempt.faults .llm = none ∧
    ∀ baseUrl text, attempt.services.extract baseUrl text = llmAnswer reply text

/-- The lookup, the creation and the event of the receipt succeed. -/
def RecordingSucceeds (world : World) : Prop :=
  ∀ receipt, receiptOf server attempt payload = .ok (some receipt) →
    ∃ after, (recordReceipt server attempt receipt).run world = (.ok (), after)

/-- The job ends normally with a new row or without one, and the extraction service accepts
what it is asked. -/
structure Processable : Prop where
  ends : ∀ world, RecordingSucceeds server attempt payload world →
    ∃ after, (processImageJob server attempt payload).run world = (.ok (), after) ∧
      (after = world ∨ ∃ row, after.db.transactions = world.db.transactions ++ [row])
  accepted : (parseWithRegex Number.ofRat (ocrText lines).toList).complete = none →
    (LLMExtractRequest.validate (ocrText lines)).isSome = true

end Reading

/-- A line has a character that is not white space. -/
def HasText (lines : List OCRLine) : Prop :=
  ∃ line ∈ lines, ∃ c ∈ line.text.toList, isSpace c = false

/-! ## The text of an image -/

theorem trim_eq_nil_iff {text : List Char} : trim text = [] ↔ ∀ c ∈ text, isSpace c = true := by
  rw [trim, List.reverse_eq_nil_iff, List.dropWhile_eq_nil_iff]
  refine ⟨?_, ?_⟩
  · intro blank c member
    rw [← List.takeWhile_append_dropWhile (p := isSpace) (l := text)] at member
    rcases List.mem_append.mp member with front | back
    · exact List.mem_takeWhile_imp front
    · exact blank c (List.mem_reverse.mpr back)
  · intro blank c member
    exact blank c ((List.dropWhile_sublist _).mem (List.mem_reverse.mp member))

theorem ocrText_ne_nil_iff {lines : List OCRLine} :
    (ocrText lines).toList ≠ [] ↔ HasText lines := by
  rw [ocrText, trimmed, String.toList_ofList, Ne, trim_eq_nil_iff, HasText]
  refine ⟨?_, ?_⟩
  · intro notBlank
    simp only [not_forall, Bool.not_eq_true] at notBlank
    obtain ⟨c, member, printed⟩ := notBlank
    have noBreak : c ≠ '\n' := by
      intro same
      rw [same] at printed
      cases printed
    obtain ⟨line, listed, member⟩ := (mem_combinedText noBreak).mp member
    exact ⟨line, listed, c, member, printed⟩
  · intro hasText blank
    obtain ⟨line, listed, c, member, printed⟩ := hasText
    have noBreak : c ≠ '\n' := by
      intro same
      rw [same] at printed
      cases printed
    rw [blank c ((mem_combinedText noBreak).mpr ⟨line, listed, member⟩)] at printed
    cases printed

section Jobs

variable {server : Server} {attempt : Attempt} {payload : ImageProcessingJobPayload}
  {lines : List OCRLine} {reply : LLMExtractRequest → LlmExtractResponse} {world : World}

/-- An answer of the language model is enough to parse a text. -/
theorem parse_answered (text : List Char) (data : LlmExtractResponse) :
    ∃ parsed, parse text (.ok data) = .ok parsed := by
  simp only [parse, Procedure.ok_bind]
  split
  next => exact ⟨_, rfl⟩
  next =>
    split
    next => exact ⟨_, rfl⟩
    next => exact ⟨_, rfl⟩

/-- The patterns find nothing in an empty text, so an empty text needs the language model. -/
theorem parse_empty (failure : Failure) : parse [] (.error failure) = .error failure := rfl

theorem receiptOf_of_reachable (reachable : Reachable server attempt payload lines reply) :
    ∃ fileUrl, receiptOf server attempt payload = (do
      let parsed ← parse (ocrText lines).toList (llmAnswer reply (ocrText lines))
      return parsed.complete.map fun fields =>
        createDto payload fields parsed.confidence false fileUrl) := by
  obtain ⟨⟨fileUrl, imageBuffer, resolved, downloaded⟩, ocrUrl, ⟨ocrFault, ocr⟩, llmUrl,
    ⟨llmFault, llm⟩⟩ := reachable
  refine ⟨fileUrl, ?_⟩
  rw [receiptOf, resolved, Procedure.ok_bind, downloaded, Procedure.ok_bind, extractText]
  simp only [ocrUrl, ↓reduceIte, ocr, ocrFault, answered, llmResponse, llmUrl, llm, llmFault,
    Procedure.ok_bind, Option.map_some, Option.getD_some, pure_bind, ocrText]

/-- What is recorded is one new row. -/
theorem exists_row_of_recordReceipt {receipt : CreateTransactionDto} {after : World}
    (records : (recordReceipt server attempt receipt).run world = (.ok (), after)) :
    ∃ row, after.db.transactions = world.db.transactions ++ [row] := by
  by_cases prevented : ∀ row, Records server attempt receipt row →
      row.id ∈ world.db.transactions.map TransactionRow.id
  · obtain ⟨failure, fails⟩ := run_recordReceipt_error prevented
    cases records.symm.trans fails
  · simp only [not_forall] at prevented
    obtain ⟨row, recordable, fresh⟩ := prevented
    obtain ⟨db, inserted, ran⟩ := run_recordReceipt recordable fresh
    have rows := (Db.insert_eq_some.mp inserted).2.1
    rw [records] at ran
    cases created : attempt.faults .create with
    | some moment =>
        rw [created] at ran
        cases ran
    | none =>
        rw [created] at ran
        cases emitted : attempt.faults .emit with
        | some moment =>
            rw [emitted] at ran
            cases moment <;> cases ran
        | none =>
            rw [emitted] at ran
            cases ran
            exact ⟨_, rows⟩

/-- A job whose image has text ends normally. -/
theorem ends_of_hasText (reachable : Reachable server attempt payload lines reply)
    (hasText : HasText lines) (recording : RecordingSucceeds server attempt payload world) :
    ∃ after, (processImageJob server attempt payload).run world = (.ok (), after) ∧
      (after = world ∨ ∃ row, after.db.transactions = world.db.transactions ++ [row]) := by
  obtain ⟨request, valid⟩ := Option.isSome_iff_exists.mp
    (LLMExtractRequest.isSome_validate.mpr (ocrText_ne_nil_iff.mpr hasText))
  obtain ⟨parsed, parses⟩ := parse_answered (ocrText lines).toList (reply request)
  obtain ⟨fileUrl, read⟩ := receiptOf_of_reachable reachable
  rw [llmAnswer, valid, parses, Procedure.ok_bind] at read
  rw [run_processImageJob]
  cases complete : parsed.complete with
  | none =>
      rw [complete, Option.map_none] at read
      rw [read]
      exact ⟨world, rfl, Or.inl rfl⟩
  | some fields =>
      rw [complete, Option.map_some] at read
      obtain ⟨after, records⟩ := recording _ read
      rw [read]
      exact ⟨after, records, Or.inr (exists_row_of_recordReceipt records)⟩

/-- A job whose image has no text fails. -/
theorem fails_of_blank (reachable : Reachable server attempt payload lines reply)
    (blank : ¬ HasText lines) : ∃ failure,
      receiptOf server attempt payload = .error failure ∧
        (processImageJob server attempt payload).run world = (.error failure, world) := by
  have empty : (ocrText lines).toList = [] := not_not.mp (ocrText_ne_nil_iff.not.mpr blank)
  have rejected : LLMExtractRequest.validate (ocrText lines) = none :=
    Option.not_isSome_iff_eq_none.mp (LLMExtractRequest.isSome_validate.not.mpr (not_not.mpr empty))
  obtain ⟨fileUrl, read⟩ := receiptOf_of_reachable reachable
  rw [llmAnswer, rejected, empty, parse_empty] at read
  have failed : receiptOf server attempt payload =
      .error (.error "Request failed with status code 422") := read
  exact ⟨_, failed, by rw [run_processImageJob, failed]⟩

theorem not_processable_of_blank (reachable : Reachable server attempt payload lines reply)
    (blank : ¬ HasText lines) : ¬ Processable server attempt payload lines := by
  intro processable
  obtain ⟨failure, read, fails⟩ := @fails_of_blank _ _ _ _ _ ⟨.empty, []⟩ reachable blank
  have recording : RecordingSucceeds server attempt payload ⟨.empty, []⟩ := by
    intro receipt found
    cases read.symm.trans found
  obtain ⟨after, ends, -⟩ := processable.ends ⟨.empty, []⟩ recording
  cases fails.symm.trans ends

/-- An OCR result can be processed exactly when one of its lines has text. -/
theorem processable_iff (reachable : Reachable server attempt payload lines reply) :
    Processable server attempt payload lines ↔ HasText lines := by
  refine ⟨?_, ?_⟩
  · intro processable
    by_contra blank
    exact not_processable_of_blank reachable blank processable
  · intro hasText
    refine ⟨fun world recording => ends_of_hasText reachable hasText recording, fun _ => ?_⟩
    exact LLMExtractRequest.isSome_validate.mpr (ocrText_ne_nil_iff.mpr hasText)

end Jobs

/-! ## Samples -/

/-- A language model that finds no field. -/
def noFields : LLMExtractRequest → LlmExtractResponse :=
  fun _ => ⟨.null, .null, .null, .null, .undefined, .undefined⟩

/-- An attempt whose image has these lines. -/
def linesAttempt (lines : List OCRLine) : Attempt where
  services := { sampleServices with
    ocr := fun _ _ => .ok (some (combinedText lines))
    extract := fun _ text => llmAnswer noFields text }
  generated := ⟨"row", sampleInstant⟩
  faults := noFaults

theorem reachable_linesAttempt (lines : List OCRLine) :
    Reachable llmServer (linesAttempt lines) samplePayload lines noFields where
  download := ⟨"https://api.telegram.org/file/bot123:abc/photos/1.jpg", [], rfl, rfl⟩
  ocrUrl := by decide
  ocr := ⟨rfl, fun _ _ => rfl⟩
  llmUrl := by decide
  llm := ⟨rfl, fun _ _ => rfl⟩

/-- An image with some text can be processed. -/
theorem greeting_processable :
    Processable llmServer (linesAttempt [⟨"hello"⟩]) samplePayload [⟨"hello"⟩] :=
  (processable_iff (reachable_linesAttempt _)).mpr
    ⟨⟨"hello"⟩, List.mem_cons_self, 'h', by simp, rfl⟩

/-- An image without a line cannot be processed. -/
theorem noLines_not_processable :
    ¬ Processable llmServer (linesAttempt []) samplePayload [] := by
  apply not_processable_of_blank (reachable_linesAttempt [])
  intro hasText
  obtain ⟨line, member, -⟩ := hasText
  cases member

end BirrTrack.Processing
