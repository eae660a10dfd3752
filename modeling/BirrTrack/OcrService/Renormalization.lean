import BirrTrack.OcrService.EmbeddedObjects
import BirrTrack.OcrService.Extraction
import BirrTrack.OcrService.TimestampFormats

/-! # Normalizing again

What the parser returns, it returns again from any JSON text of it, whatever prose and fence marks
stand around that text.
-/

namespace BirrTrack.OcrService

open Python Json

/-! ## Timestamps -/

/-- The characters of ISO texts -/
def isIsoChar (c : Char) : Bool := c.isDigit || c ∈ ['-', ':', 'T', '.', '+']

def IsoChars (text : List Char) : Prop := ∀ c ∈ text, isIsoChar c = true

section IsoTexts

variable {front back : List Char}

theorem isoChars_nil : IsoChars [] := fun _ member => absurd member List.not_mem_nil

theorem IsoChars.append (isoFront : IsoChars front) (isoBack : IsoChars back) :
    IsoChars (front ++ back) := fun c member =>
  (List.mem_append.mp member).elim (isoFront c) (isoBack c)

theorem IsoChars.cons {c : Char} (mark : isIsoChar c = true) (isoBack : IsoChars back) :
    IsoChars (c :: back) := List.forall_mem_cons.mpr ⟨mark, isoBack⟩

theorem isoChars_padded (width n : ℕ) : IsoChars (Decimal.padded width n) := by
  intro c member
  rw [isIsoChar, Decimal.isDigit_of_mem_padded member, Bool.true_or]

theorem isoChars_offsetText (difference : ℤ) : IsoChars (offsetText difference) := by
  unfold offsetText
  refine .cons (by split <;> decide) (.append (isoChars_padded 2 _) (.cons (by decide)
    (.append (isoChars_padded 2 _) ?_)))
  split
  next => exact isoChars_nil
  next =>
    refine .cons (by decide) (.append (isoChars_padded 2 _) ?_)
    split
    next => exact isoChars_nil
    next => exact .cons (by decide) (isoChars_padded 6 _)

/-- An ISO form consists of digits and a few marks. -/
theorem isoChars_isoformat (moment : Datetime) : IsoChars moment.isoformat := by
  obtain ⟨low, high⟩ := moment.year
  have year : Calendar.yearText moment.date.year = Decimal.padded 4 moment.date.year.natAbs :=
    if_pos ⟨by omega, high⟩
  have date : IsoChars (Calendar.dateText moment.date) := by
    rw [Calendar.dateText, year]
    exact .append (isoChars_padded 4 _) (.cons (by decide) (.append (isoChars_padded 2 _)
      (.cons (by decide) (isoChars_padded 2 _))))
  have clock : IsoChars (Calendar.clockText moment.seconds) :=
    .append (isoChars_padded 2 _) (.cons (by decide) (.append (isoChars_padded 2 _)
      (.cons (by decide) (isoChars_padded 2 _))))
  refine .append date (.cons (by decide) (.append clock (.append ?_ ?_)))
  · split
    next => exact isoChars_nil
    next => exact .cons (by decide) (isoChars_padded 6 _)
  · cases moment.offset with
    | none => exact isoChars_nil
    | some difference => exact isoChars_offsetText difference

/-- A text of such characters has no white ends. -/
theorem stripped_of_isoChars {text : List Char} (isoChars : IsoChars text) : Stripped text := by
  refine stripped_of_forall fun c member => ?_
  rcases Bool.or_eq_true_iff.mp (isoChars c member) with digit | mark
  · exact isSpace_of_isDigit' digit
  · have marks : ∀ d ∈ ['-', ':', 'T', '.', '+'], isSpace d = false := by decide
    exact marks c (of_decide_eq_true mark)

/-- An ISO text is normalized to itself. -/
theorem normalizeTimestamp_isoformat (moment : Datetime) :
    normalizeTimestamp (some moment.isoformat) = some moment.isoformat := by
  have isoChars := isoChars_isoformat moment
  have nonempty : moment.isoformat ≠ [] :=
    List.append_ne_nil_of_right_ne_nil _ (List.cons_ne_nil _ _)
  have noZulu : moment.isoformat.flatMap (fun c => if c = 'Z' then "+00:00".toList else [c]) =
      moment.isoformat := by
    have each : ∀ c ∈ moment.isoformat,
        (if c = 'Z' then "+00:00".toList else [c]) = [c] := by
      intro c member
      rw [if_neg]
      rintro rfl
      exact absurd (isoChars 'Z' member) (by decide)
    rw [List.flatMap_congr each, List.flatMap_singleton']
  have text : normalizeString (some moment.isoformat) = some moment.isoformat := by
    simp only [normalizeString, Option.bind_eq_bind, Option.bind_some,
      (stripped_of_isoChars isoChars).strip_eq, nonempty, ↓reduceIte]
  simp only [normalizeTimestamp, text, Option.bind_eq_bind, Option.bind_some, noZulu,
    fromisoformat_isoformat]
  rfl

end IsoTexts

/-! ## Payloads -/

/-- A text or null in JSON -/
def textValue : Option (List Char) → Value
  | none => .none
  | some text => .str text

def amountValue : Option Double → Value
  | none => .none
  | some amount => .float amount

/-- The fields of an object are those of a payload; it may have others. -/
structure Denotes (items : List (List Char × Value)) (fields : NormalizedFields) : Prop where
  bankName : get items "bank_name" = textValue fields.bankName
  amount : get items "amount" = amountValue fields.amount
  transactionId : get items "transaction_id" = textValue fields.transactionId
  timestamp : get items "timestamp" = textValue fields.timestamp

section Payloads

variable {limits : Limits} {isPrintable : Char → Bool} {items : List (List Char × Value)}

/-- A text that is stored as a JSON value is read back. -/
theorem textOf_textValue (text : Option (List Char)) :
    textOf isPrintable (textValue text) = text := by
  cases text with
  | none => rfl
  | some text => rfl

/-- Normalising a text twice is normalising it once. -/
theorem normalizeString_again {value : Option (List Char)} :
    normalizeString (normalizeString value) = normalizeString value := by
  cases first : normalizeString value with
  | none => rfl
  | some text =>
      obtain ⟨nonempty, stripped⟩ := normalizeString_stripped first
      simp only [normalizeString, Option.bind_eq_bind, Option.bind_some, stripped.strip_eq,
        nonempty, ↓reduceIte]

/-- So with a timestamp: its ISO form is read as itself. -/
theorem normalizeTimestamp_again {value : Option (List Char)} :
    normalizeTimestamp (normalizeTimestamp value) = normalizeTimestamp value := by
  cases first : normalizeTimestamp value with
  | none => rfl
  | some text =>
      obtain ⟨moment, -, rfl⟩ := normalizeTimestamp_iso first
      exact normalizeTimestamp_isoformat moment

/-- The fields of a payload, read from an object that denotes them. -/
theorem normalizeFields_again {payload : List (List Char × Value)} {fields : NormalizedFields}
    (normalized : normalizeFields isPrintable payload = .ok fields)
    (denotes : Denotes items fields) : normalizeFields isPrintable items = .ok fields := by
  simp only [normalizeFields, bind, Except.bind] at normalized
  cases found : normalizeAmount isPrintable (get payload "amount") with
  | error => rw [found] at normalized; cases normalized
  | ok amount =>
      rw [found] at normalized
      cases normalized
      have kept : normalizeAmount isPrintable (amountValue amount) = .ok amount := by
        cases amount with
        | none => rfl
        | some amount => rfl
      simp only [normalizeFields, denotes.bankName, denotes.amount, denotes.transactionId,
        denotes.timestamp, textOf_textValue, normalizeString_again, normalizeTimestamp_again, kept,
        bind, Except.bind]
      rfl

/-- Where a dictionary is found, the payload is its normalised fields with their confidence. -/
theorem parseExtractionOutput_of_dict {rawOutput : List Char}
    (extracted : extractJsonDict limits rawOutput = .ok items) :
    parseExtractionOutput limits isPrintable rawOutput =
      (normalizeFields isPrintable items).map fun fields => ⟨fields, computeConfidence fields⟩ := by
  simp only [parseExtractionOutput, extracted, bind, Except.bind]
  cases normalizeFields isPrintable items with
  | error => rfl
  | ok => rfl

/-- A payload is returned again for every text that holds an object of its fields, unless a brace
stands before the object, the object's own fence marks are at stake or the decoder overruns a limit
on the text. -/
theorem parseExtractionOutput_again {rawOutput front text back : List Char} {payload : Extraction}
    (parsed : parseExtractionOutput limits isPrintable rawOutput = .ok payload)
    (isObject : IsObject text) (decoded : loads limits text = .ok (.dict items))
    (denotes : Denotes items payload.toNormalizedFields) (noBrace : '{' ∉ front)
    (fits : ¬ Overruns limits (front ++ (text ++ back)))
    (fits' : ¬ Overruns limits (strip (unfenced (front ++ (text ++ back)))))
    (fences : ¬ Unfenced limits front text back) :
    parseExtractionOutput limits isPrintable (front ++ (text ++ back)) = .ok payload := by
  have first : FirstObject front text back := firstObject_of_not_mem noBrace
  have extracted : extractJsonDict limits (front ++ (text ++ back)) = .ok items := by
    by_cases alone : Blank front ∧ Blank back
    · exact extractJsonDict_of_blank isObject first alone decoded
    · exact (extractJsonDict_of_not_mem isObject first fits alone noBrace decoded).mpr
        ⟨fits', fences⟩
  cases extracted' : extractJsonDict limits rawOutput with
  | error raised =>
      simp only [parseExtractionOutput, extracted', bind, Except.bind] at parsed
      cases parsed
  | ok given =>
      rw [parseExtractionOutput_of_dict extracted'] at parsed
      cases normalized : normalizeFields isPrintable given with
      | error raised =>
          rw [normalized] at parsed
          cases parsed
      | ok fields =>
          rw [normalized] at parsed
          cases parsed
          rw [parseExtractionOutput_of_dict extracted, normalizeFields_again normalized denotes]
          rfl

end Payloads

/-- What is read from an object with white space in its texts is read again from prose around the
normalized object. -/
theorem parseExtractionOutput_again_sample :
    parseExtractionOutput sampleLimits isAsciiPrintable
        ("Here: ".toList ++
          ("\x7b\"bank_name\": \"CBE\", \"amount\": null\x7d".toList ++ ".".toList)) =
      parseExtractionOutput sampleLimits isAsciiPrintable
        "\x7b\"bank_name\": \" CBE \"\x7d".toList := by
  have extracted : extractJsonDict sampleLimits "\x7b\"bank_name\": \" CBE \"\x7d".toList =
      .ok [("bank_name".toList, .str " CBE ".toList)] := rfl
  have parsed := @parseExtractionOutput_of_dict _ isAsciiPrintable _ _ extracted
  refine (parseExtractionOutput_again parsed (@isObject_of_scanOnce_nil .unlimited 50 _ _ rfl) rfl
    ⟨rfl, rfl, rfl, rfl⟩ (by decide) ?_ ?_ ?_).trans parsed.symm
  · rintro ⟨raised, failed, other⟩
    cases failed
    exact other rfl
  · rintro ⟨raised, failed, other⟩
    cases failed
    exact other rfl
  · rintro ⟨white, -⟩
    exact absurd (white 'H' (by decide)) (by decide)

end BirrTrack.OcrService
