import BirrTrack.Python.Datetime
import BirrTrack.Python.Json

/-! # The parser of the OCR service

How the service finds a JSON object in the output of the language model and normalizes
the fields that the model extracted.
-/

namespace BirrTrack.OcrService

open Python

def TIMESTAMP_FORMATS : List String :=
  ["%Y-%m-%dT%H:%M:%S",
    "%Y-%m-%d %H:%M:%S",
    "%Y-%m-%d %H:%M",
    "%Y/%m/%d %H:%M:%S",
    "%Y/%m/%d %H:%M",
    "%d/%m/%Y %H:%M:%S",
    "%d/%m/%Y %H:%M",
    "%d-%m-%Y %H:%M:%S",
    "%d-%m-%Y %H:%M",
    "%Y-%m-%d",
    "%d/%m/%Y",
    "%d-%m-%Y"]

/-! ## The JSON object -/

/-- The variables of the loop of `_find_balanced_json_object`. -/
structure BraceScan where
  depth : ℤ
  inString : Bool
  escapeNext : Bool

/-- The loop of `_find_balanced_json_object`: the text up to the brace that closes the first
one. -/
def balancedFrom (scan : BraceScan) : List Char → Option (List Char)
  | [] => none
  | char :: rest =>
      if scan.escapeNext then
        (balancedFrom { scan with escapeNext := false } rest).map (char :: ·)
      else if char = '\\' ∧ scan.inString then
        (balancedFrom { scan with escapeNext := true } rest).map (char :: ·)
      else if char = '"' then
        (balancedFrom { scan with inString := !scan.inString } rest).map (char :: ·)
      else if scan.inString then (balancedFrom scan rest).map (char :: ·)
      else if char = '{' then
        (balancedFrom { scan with depth := scan.depth + 1 } rest).map (char :: ·)
      else if char = '}' then
        if scan.depth - 1 = 0 then some [char]
        else (balancedFrom { scan with depth := scan.depth - 1 } rest).map (char :: ·)
      else (balancedFrom scan rest).map (char :: ·)

/-- `_find_balanced_json_object` -/
def findBalancedJsonObject (rawOutput : List Char) : Option (List Char) :=
  balancedFrom ⟨0, false, false⟩ (rawOutput.dropWhile (· ≠ '{'))

/-- The raw output without the marks of a fenced code block. -/
def cleanedOutput (rawOutput : List Char) : List Char :=
  strip (replace "```".toList [] (replace "```json".toList [] (strip rawOutput)))

section Decoding

variable (limits : Json.Limits)

/-- The object that a whole text denotes, none where the text is no JSON or denotes another
value. Any other exception than a `JSONDecodeError` is raised. -/
def loadsDict (text : List Char) : Except Exception (Option (List (List Char × Value))) :=
  match loads limits text with
  | .ok (.dict items) => .ok (some items)
  | .ok _ => .ok none
  | .error .jsonDecodeError => .ok none
  | .error raised => .error raised

/-- The attempts on the whole output, the second one on what is left of it when cleaned. -/
def wholeDict (rawOutput : List Char) :
    Except Exception (Option (List (List Char × Value))) := do
  match ← loadsDict limits rawOutput with
  | some value => return some value
  | none =>
      let cleaned := cleanedOutput rawOutput
      if cleaned = [] then return none else loadsDict limits cleaned

/-- The attempt on the first balanced braces in the output. -/
def balancedDict (rawOutput : List Char) : Except Exception (List (List Char × Value)) :=
  match findBalancedJsonObject rawOutput with
  | none => .error (.valueError "No JSON object found in LLM output.")
  | some candidate => do
      match ← loads limits candidate with
      | .dict value => return value
      | _ => .error (.valueError "Parsed LLM output is not a JSON object.")

/-- `_extract_json_dict` -/
def extractJsonDict (rawOutput : List Char) : Except Exception (List (List Char × Value)) :=
  if strip rawOutput = [] then .error (.valueError "LLM output is empty.")
  else do
    match ← wholeDict limits rawOutput with
    | some value => return value
    | none => balancedDict limits rawOutput

end Decoding

/-! ## The fields -/

/-- `_normalize_string`, from the text `str(value)` of a value that is not `None`. -/
def normalizeString (value : Option (List Char)) : Option (List Char) := do
  let normalized := strip (← value)
  if normalized = [] then none else some normalized

/-- `_normalize_timestamp` -/
def normalizeTimestamp (value : Option (List Char)) : Option (List Char) := do
  let text ← normalizeString value
  let normalized := text.flatMap fun c => if c = 'Z' then "+00:00".toList else [c]
  match fromisoformat normalized with
  | some parsed => return parsed.isoformat
  | none => TIMESTAMP_FORMATS.findSome? fun pattern =>
      (strptime text pattern.toList).map Datetime.isoformat

/-- The text of an amount that is given to `float`: its digits, decimal separators and minus
signs, with commas normalized. -/
def amountCandidate (text : List Char) : List Char :=
  let candidate := (strip text).filter fun c => isDecimal c ∨ c = ',' ∨ c = '.' ∨ c = '-'
  if ',' ∈ candidate ∧ '.' ∉ candidate then
    candidate.map fun c => if c = ',' then '.' else c
  else candidate.filter (· ≠ ',')

section Normalization

-- `str.isprintable` of a single character
variable (limits : Json.Limits) (isPrintable : Char → Bool)

/-- `_normalize_amount` -/
def normalizeAmount : Value → Except Exception (Option Double)
  | .none => .ok none
  | .bool b => .ok (some (.of false (if b then 1 else 0)))
  | .int n =>
      match Double.ofInt n with
      | some amount => .ok (some amount)
      | none => .error .overflowError
  | .float x => .ok (some x)
  | value => .ok (Double.ofText (amountCandidate (value.toStr isPrintable)))

/-- `str(value)` of a value that is not `None` -/
def textOf : Value → Option (List Char)
  | .none => none
  | value => some (value.toStr isPrintable)

/-- The fields of a transaction, as `_normalize_fields` returns them. -/
structure NormalizedFields where
  bankName : Option (List Char)
  amount : Option Double
  transactionId : Option (List Char)
  timestamp : Option (List Char)

/-- `_normalize_fields` -/
def normalizeFields (payload : List (List Char × Value)) : Except Exception NormalizedFields := do
  let bankName := normalizeString (textOf isPrintable (get payload "bank_name"))
  let transactionId := normalizeString (textOf isPrintable (get payload "transaction_id"))
  let amount ← normalizeAmount isPrintable (get payload "amount")
  let timestamp := normalizeTimestamp (textOf isPrintable (get payload "timestamp"))
  return ⟨bankName, amount, transactionId, timestamp⟩

def DEFAULT_CONFIDENCE_PARSE_FAILURE : Double := .of false (50 / 100)
def CONFIDENCE_ALL_FIELDS_PRESENT : Double := .of false (85 / 100)
def CONFIDENCE_ONE_FIELD_MISSING : Double := .of false (75 / 100)
def CONFIDENCE_MULTIPLE_FIELDS_MISSING : Double := .of false (60 / 100)

/-- `_compute_confidence` -/
def computeConfidence (normalized : NormalizedFields) : Double :=
  let missing := [normalized.bankName.isNone, normalized.amount.isNone,
    normalized.transactionId.isNone, normalized.timestamp.isNone]
  let missingFields := missing.count true
  if missingFields = 0 then CONFIDENCE_ALL_FIELDS_PRESENT
  else if missingFields = 1 then CONFIDENCE_ONE_FIELD_MISSING
  else CONFIDENCE_MULTIPLE_FIELDS_MISSING

/-- The response to an extraction. -/
structure Extraction extends NormalizedFields where
  confidence : Double

/-- `build_fallback_payload` -/
def buildFallbackPayload : Extraction :=
  ⟨⟨none, none, none, none⟩, DEFAULT_CONFIDENCE_PARSE_FAILURE⟩

/-- `parse_extraction_output` -/
def parseExtractionOutput (rawOutput : List Char) : Except Exception Extraction := do
  let parsedJson ← extractJsonDict limits rawOutput
  let normalized ← normalizeFields isPrintable parsedJson
  return ⟨normalized, computeConfidence normalized⟩

/-- `LLMService.extract_transaction_data`, from the text that the model generated. -/
def extractTransactionData (rawOutput : List Char) : Except Exception Extraction :=
  match parseExtractionOutput limits isPrintable rawOutput with
  | .ok parsedOutput => .ok parsedOutput
  | .error (.valueError _) => .ok buildFallbackPayload
  | .error .jsonDecodeError => .ok buildFallbackPayload
  | .error .overflowError => .error .overflowError
  | .error .recursionError => .error .recursionError

/-- The fields that `llm_extract` answers with when the model generated a text. -/
def llmExtract (rawOutput : List Char) : Extraction :=
  match extractTransactionData limits isPrintable rawOutput with
  | .ok extracted => extracted
  | .error _ => buildFallbackPayload

end Normalization

end BirrTrack.OcrService
