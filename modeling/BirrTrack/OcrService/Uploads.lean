import BirrTrack.OcrService.OcrResults
import BirrTrack.OcrService.Preprocessing

/-! # Uploaded images

`POST /ocr`: an upload is checked, decoded, prepared and read by the engine. The engine is only
given images that are large enough, and the text of a response has no white space around it or
around any of its lines.
-/

namespace BirrTrack.OcrService

open Python

def MAX_FILE_SIZE_BYTES : ℕ := 10 * 1024 * 1024

structure UploadFile where
  contentType : Option (List Char)
  bytes : List UInt8

structure OCRResponse where
  text : List Char
  lines : List (List Char × Double)

/-- The status and the detail of a reply that is no response. -/
structure ErrorReply where
  status : ℕ
  detail : String
  deriving DecidableEq

/-- What the route, or the handler of the application, makes of a failure. -/
def OcrFailure.reply : OcrFailure → ErrorReply
  | imageProcessingError text => ⟨422, text⟩
  | ocrServiceError _ => ⟨500, "OCR processing failed."⟩
  | unexpected => ⟨500, "Internal server error."⟩

section Route

-- `str(x)` of what is no text, and the entries of `np.asarray(x).ravel()`
variable (strOfOther : Obj → List Char) (asarray : Obj → Except BuiltinError (List Obj))
  {Pixels : Type} (libraries : ImageLibraries Pixels)

/-- `OCRService.extract_text`, of an engine that returns none where it raises. -/
def extractText (predict : Image Pixels → Option Obj) (image : Image Pixels) :
    Except OcrFailure OCRResponse :=
  if image.height * image.width = 0 then
    .error (.ocrServiceError "Invalid image input. Empty image array received.")
  else
    match predict image with
    | none => .error (.ocrServiceError "OCR engine failed to process image.")
    | some rawOutput =>
        match normalizePaddleOcrRaw strOfOther asarray rawOutput with
        | .ok lines => .ok ⟨List.intercalate ['\n'] (lines.map Prod.fst), lines⟩
        | .error _ => .error .unexpected

/-- The part of `ocr_extract` whose failures it catches; `get_ocr_service` returns none where it
raises. -/
def readUpload (getOcrService : Option (Image Pixels → Option Obj)) (fileBytes : List UInt8) :
    Except OcrFailure OCRResponse := do
  let image ← decodeImage libraries fileBytes
  let prepared ← prepareImageForPaddleOcr libraries image
  match getOcrService with
  | none => .error .unexpected
  | some predict => extractText strOfOther asarray predict prepared

def ocrExtract (getOcrService : Option (Image Pixels → Option Obj)) (file : UploadFile) :
    Except ErrorReply OCRResponse :=
  if ¬ file.contentType.any "image/".toList.isPrefixOf then
    .error ⟨400, "Invalid upload: only image files are supported."⟩
  else if file.bytes = [] then .error ⟨400, "Invalid upload: file is empty."⟩
  else if MAX_FILE_SIZE_BYTES < file.bytes.length then
    .error ⟨413, "Uploaded file is too large. Maximum allowed size is 10MB."⟩
  else (readUpload strOfOther asarray libraries getOcrService file.bytes).mapError OcrFailure.reply

end Route

/-! ## Lines -/

/-- A text that is not empty and has no white space at its ends. -/
def IsLineText (text : List Char) : Prop := text ≠ [] ∧ Stripped text

/-- All lines that are returned are such texts. -/
def ReadsLines (result : Except BuiltinError (List (List Char × Double))) : Prop :=
  ∀ lines, result = .ok lines → ∀ line ∈ lines, IsLineText line.1

section Lines

variable {strOfOther : Obj → List Char} {asarray : Obj → Except BuiltinError (List Obj)}

theorem readsLines_of_forall {lines : List (List Char × Double)}
    (texts : ∀ line ∈ lines, IsLineText line.1) : ReadsLines (.ok lines) := by
  intro other same
  cases same
  exact texts

theorem readsLines_nil : ReadsLines (return []) :=
  readsLines_of_forall fun _ member => absurd member List.not_mem_nil

theorem readsLines_bind {α : Type} {first : Except BuiltinError α}
    {next : α → Except BuiltinError (List (List Char × Double))}
    (reads : ∀ a, first = .ok a → ReadsLines (next a)) : ReadsLines (first >>= next) := by
  intro lines ok
  cases outcome : first with
  | error => rw [outcome] at ok; cases ok
  | ok a =>
      rw [outcome] at ok
      exact reads a outcome lines ok

theorem readsLines_cons {text : List Char} {score : Double}
    {others : Except BuiltinError (List (List Char × Double))} (nonempty : strip text ≠ [])
    (reads : ReadsLines others) : ReadsLines (do return (strip text, score) :: (← others)) := by
  refine readsLines_bind fun rest same => readsLines_of_forall ?_
  intro line member
  rcases List.mem_cons.mp member with rfl | later
  · exact ⟨nonempty, strip_stripped text⟩
  · exact reads rest same line later

theorem gather_readsLines {read : Obj → Except BuiltinError (List (List Char × Double))}
    (reads : ∀ obj, ReadsLines (read obj)) (objs : List Obj) : ReadsLines (gather read objs) := by
  induction objs with
  | nil => exact readsLines_nil
  | cons obj objs ih =>
      refine readsLines_bind fun front found => readsLines_bind fun back found' =>
        readsLines_of_forall ?_
      intro line member
      rcases List.mem_append.mp member with inFront | inBack
      · exact reads obj front found line inFront
      · exact ih back found' line inBack

theorem scoredLines_readsLines (flatScores texts : List Obj) (i : ℕ) :
    ReadsLines (scoredLines strOfOther flatScores i texts) := by
  induction texts generalizing i with
  | nil => exact readsLines_nil
  | cons rawText texts ih =>
      simp only [scoredLines]
      split
      next => exact ih (i + 1)
      next nonempty => exact readsLines_bind fun conf _ => readsLines_cons nonempty (ih (i + 1))

theorem entryLines_readsLines (entry : Obj) : ReadsLines (entryLines strOfOther asarray entry) := by
  unfold entryLines
  split
  next => exact readsLines_nil
  next res found =>
    simp only
    split
    next =>
      exact readsLines_bind fun flatScores _ => readsLines_bind fun texts _ =>
        scoredLines_readsLines flatScores texts 0
    next => exact readsLines_nil

theorem itemLines_readsLines (item : Obj) : ReadsLines (itemLines strOfOther item) := by
  unfold itemLines
  split
  next =>
    split
    next =>
      simp only
      split
      next => exact readsLines_nil
      next nonempty => exact readsLines_bind fun conf _ => readsLines_cons nonempty readsLines_nil
    next => exact readsLines_nil
  next => exact readsLines_nil

theorem pageLines_readsLines (page : Obj) : ReadsLines (pageLines strOfOther page) := by
  unfold pageLines
  split
  next => exact gather_readsLines itemLines_readsLines _
  next => exact readsLines_nil

/-- Every line that is read from the engine is a text without white space around it. -/
theorem normalizePaddleOcrRaw_readsLines (rawOutput : Obj) :
    ReadsLines (normalizePaddleOcrRaw strOfOther asarray rawOutput) := by
  have legacy : ReadsLines (linesFromLegacyOcr strOfOther rawOutput) := by
    unfold linesFromLegacyOcr
    split
    next => exact gather_readsLines pageLines_readsLines _
    next => exact readsLines_nil
  have paddlex : ReadsLines (linesFromPaddlexPredict strOfOther asarray rawOutput) := by
    unfold linesFromPaddlexPredict
    split
    next => exact gather_readsLines entryLines_readsLines _
    next => exact gather_readsLines entryLines_readsLines _
    next => exact gather_readsLines entryLines_readsLines _
    next => exact readsLines_nil
  unfold normalizePaddleOcrRaw
  split
  next => exact readsLines_nil
  next =>
    refine readsLines_bind fun lines found => ?_
    split
    next => exact legacy
    next => exact readsLines_of_forall (paddlex lines found)

/-- Joined by line breaks, such texts make a text without white space around it. -/
theorem stripped_intercalate {texts : List (List Char)} (isLines : ∀ text ∈ texts, IsLineText text)
    (some : texts ≠ []) : IsLineText (List.intercalate ['\n'] texts) := by
  induction texts with
  | nil => exact absurd rfl some
  | cons text texts ih =>
      obtain ⟨nonempty, stripped⟩ := isLines text List.mem_cons_self
      cases texts with
      | nil =>
          rw [List.intercalate_singleton]
          exact ⟨nonempty, stripped⟩
      | cons next texts =>
          obtain ⟨nonempty', -, stripped'⟩ :=
            ih (fun other member => isLines other (List.mem_cons_of_mem _ member))
              (List.cons_ne_nil _ _)
          rw [List.intercalate_cons_cons]
          refine ⟨?_, ?_, ?_⟩
          · exact List.append_ne_nil_of_left_ne_nil (List.append_ne_nil_of_left_ne_nil nonempty _) _
          · rw [List.append_assoc, List.head?_append_of_ne_nil _ nonempty]
            exact stripped.1
          · rw [List.getLast?_append_of_ne_nil _ nonempty']
            exact stripped'

end Lines

/-! ## Responses -/

section Responses

variable {strOfOther : Obj → List Char} {asarray : Obj → Except BuiltinError (List Obj)}
  {Pixels : Type} {libraries : ImageLibraries Pixels}

variable (libraries) in
/-- The image that the engine is given of an upload. -/
def PreparedFrom (fileBytes : List UInt8) (prepared : Image Pixels) : Prop :=
  ∃ image, decodeImage libraries fileBytes = .ok image ∧
    prepareImageForPaddleOcr libraries image = .ok prepared

/-- It has channels, and no side is much shorter than the least that the engine is meant for. -/
theorem PreparedFrom.sides {fileBytes : List UInt8} {prepared : Image Pixels}
    (ready : PreparedFrom libraries fileBytes prepared) :
    prepared.hasChannels = true ∧ 699 ≤ prepared.height ∧ 699 ≤ prepared.width := by
  obtain ⟨image, -, ok⟩ := ready
  obtain ⟨channels, sides, -, -⟩ := prepare_spec ok
  exact ⟨channels, le_min_iff.mp sides⟩

/-- What the engine makes of any other image than the one prepared from the upload never matters. -/
theorem ocrExtract_congr {predict predict' : Image Pixels → Option Obj} {file : UploadFile}
    (same : ∀ image, PreparedFrom libraries file.bytes image → predict image = predict' image) :
    ocrExtract strOfOther asarray libraries (some predict) file =
      ocrExtract strOfOther asarray libraries (some predict') file := by
  have read : readUpload strOfOther asarray libraries (some predict) file.bytes =
      readUpload strOfOther asarray libraries (some predict') file.bytes := by
    unfold readUpload
    cases decoded : decodeImage libraries file.bytes with
    | error => rfl
    | ok image =>
        simp only [bind, Except.bind]
        cases ready : prepareImageForPaddleOcr libraries image with
        | error => rfl
        | ok prepared => simp only [extractText, same prepared ⟨image, decoded, ready⟩]
  unfold ocrExtract
  rw [read]

theorem mapError_eq_ok {α ε ε' : Type} {result : Except ε α} {convert : ε → ε'} {a : α}
    (ok : result.mapError convert = .ok a) : result = .ok a := by
  cases result with
  | error => cases ok
  | ok =>
      cases ok
      rfl

theorem readUpload_eq_ok {service : Option (Image Pixels → Option Obj)} {fileBytes : List UInt8}
    {response : OCRResponse}
    (ok : readUpload strOfOther asarray libraries service fileBytes = .ok response) :
    ∃ predict image rawOutput, service = some predict ∧ PreparedFrom libraries fileBytes image ∧
      predict image = some rawOutput ∧
      normalizePaddleOcrRaw strOfOther asarray rawOutput = .ok response.lines ∧
      response.text = List.intercalate ['\n'] (response.lines.map Prod.fst) := by
  unfold readUpload at ok
  cases decoded : decodeImage libraries fileBytes with
  | error => rw [decoded] at ok; cases ok
  | ok image =>
      simp only [decoded, bind, Except.bind] at ok
      cases ready : prepareImageForPaddleOcr libraries image with
      | error => rw [ready] at ok; cases ok
      | ok prepared =>
          simp only [ready] at ok
          split at ok
          next => cases ok
          next predict =>
            unfold extractText at ok
            split at ok
            next => cases ok
            next =>
              split at ok
              next => cases ok
              next rawOutput read =>
                split at ok
                next lines found =>
                  cases ok
                  exact ⟨predict, prepared, rawOutput, rfl, ⟨image, decoded, ready⟩, read, found,
                    rfl⟩
                next => cases ok

/-- The text of a response, of lines that are not blank. -/
theorem intercalate_lines {lines : List (List Char × Double)}
    (texts : ∀ line ∈ lines, IsLineText line.1) :
    strip (List.intercalate ['\n'] (lines.map Prod.fst)) =
        List.intercalate ['\n'] (lines.map Prod.fst) ∧
      (List.intercalate ['\n'] (lines.map Prod.fst) = [] ↔ lines = []) := by
  by_cases blank : lines = []
  · subst blank
    exact ⟨rfl, iff_of_true rfl rfl⟩
  · obtain ⟨nonempty, stripped⟩ := stripped_intercalate
      (List.forall_mem_map.mpr texts) (mt List.map_eq_nil_iff.mp blank)
    exact ⟨stripped.strip_eq, iff_of_false nonempty blank⟩

/-- A response is what the engine read in the image prepared from the upload, which is of an image
type, not empty and not too large; its text is its lines, none of them blank, without white space
around any of them or around the text. -/
theorem ocrExtract_response {service : Option (Image Pixels → Option Obj)} {file : UploadFile}
    {response : OCRResponse}
    (ok : ocrExtract strOfOther asarray libraries service file = .ok response) :
    file.contentType.any "image/".toList.isPrefixOf = true ∧ file.bytes ≠ [] ∧
      file.bytes.length ≤ MAX_FILE_SIZE_BYTES ∧
      (∃ predict image rawOutput, service = some predict ∧
        PreparedFrom libraries file.bytes image ∧
        (image.hasChannels = true ∧ 699 ≤ image.height ∧ 699 ≤ image.width) ∧
        predict image = some rawOutput ∧
        normalizePaddleOcrRaw strOfOther asarray rawOutput = .ok response.lines) ∧
      response.text = List.intercalate ['\n'] (response.lines.map Prod.fst) ∧
      (∀ line ∈ response.lines, IsLineText line.1) ∧
      strip response.text = response.text ∧ (response.text = [] ↔ response.lines = []) := by
  unfold ocrExtract at ok
  split at ok
  next => cases ok
  next typed =>
    split at ok
    next => cases ok
    next nonempty =>
      split at ok
      next => cases ok
      next fits =>
        obtain ⟨predict, image, rawOutput, found, ready, read, lines, text⟩ :=
          readUpload_eq_ok (mapError_eq_ok ok)
        have texts := normalizePaddleOcrRaw_readsLines rawOutput response.lines lines
        refine ⟨not_not.mp typed, nonempty, not_lt.mp fits,
          ⟨predict, image, rawOutput, found, ready, ready.sides, read, lines⟩, text, texts, ?_⟩
        rw [text]
        exact intercalate_lines texts

end Responses

/-! ## Samples -/

def sampleUpload : UploadFile := ⟨some "image/png".toList, [0]⟩

/-- An engine of the old version that reads one line. -/
def oneLine (_image : Image Unit) : Option Obj :=
  some (.list [.list [.list [.none, .tuple [.str " CBE ".toList, .none]]]])

theorem ocrExtract_sampleUpload :
    ocrExtract (fun _ => []) (fun _ => .ok []) sampleLibraries (some oneLine) sampleUpload =
      .ok ⟨"CBE".toList, [("CBE".toList, .of false 0)]⟩ := by
  have read : readUpload (fun _ => []) (fun _ => .ok []) sampleLibraries (some oneLine) [0] =
      extractText (fun _ => []) (fun _ => .ok []) oneLine sampleEnlarged := by
    unfold readUpload
    rw [show decodeImage sampleLibraries [0] = .ok sampleImage from rfl]
    simp only [bind, Except.bind, prepare_sampleImage]
  simp only [ocrExtract, sampleUpload, read]
  rfl

theorem sampleUpload_response : strip "CBE".toList = "CBE".toList :=
  (ocrExtract_response ocrExtract_sampleUpload).2.2.2.2.2.2.1

/-- An engine that reads nothing in small images gives the same response. -/
theorem sampleUpload_congr :
    ocrExtract (fun _ => []) (fun _ => .ok []) sampleLibraries (some oneLine) sampleUpload =
      ocrExtract (fun _ => []) (fun _ => .ok []) sampleLibraries
        (some fun image => if image.height < 699 then none else oneLine image) sampleUpload := by
  refine ocrExtract_congr fun image ready => ?_
  rw [if_neg (not_lt.mpr ready.sides.2.1)]

end BirrTrack.OcrService
