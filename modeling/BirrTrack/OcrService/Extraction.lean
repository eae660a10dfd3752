import BirrTrack.OcrService.Parser

/-! # Well-formed extractions

What the OCR service returns for any text of the language model. Names and ids are
stripped, timestamps are ISO texts, and an amount is finite whenever the JSON object's
amount does not reach the range of the infinities.
-/

namespace BirrTrack.OcrService

open Python

/-- A text that `datetime.fromisoformat` reads and `isoformat` writes again. -/
def IsIsoText (text : List Char) : Prop :=
  ∃ moment, fromisoformat text = some moment ∧ moment.isoformat = text

structure Extraction.WellFormed (payload : Extraction) : Prop where
  amount : ∀ amount ∈ payload.amount, amount.IsFinite
  bankName : ∀ name ∈ payload.bankName, name ≠ [] ∧ Stripped name
  transactionId : ∀ id ∈ payload.transactionId, id ≠ [] ∧ Stripped id
  timestamp : ∀ text ∈ payload.timestamp, IsIsoText text

/-- A well-formed payload, or a `ValueError`. -/
def ReturnsWellFormed : Except Exception Extraction → Prop
  | .ok payload => payload.WellFormed
  | .error raised => raised.IsValueError

section Fields

/-- A text that is kept is not empty and has no white ends. -/
theorem normalizeString_stripped {value : Option (List Char)} {text : List Char}
    (member : text ∈ normalizeString value) : text ≠ [] ∧ Stripped text := by
  cases value with
  | none => cases member
  | some raw =>
      simp only [normalizeString, Option.bind_eq_bind, Option.bind_some, Option.mem_def] at member
      split at member
      next => cases member
      next nonempty =>
        obtain rfl := Option.some.inj member
        exact ⟨nonempty, strip_stripped raw⟩

theorem isIsoText_isoformat (moment : Datetime) : IsIsoText moment.isoformat :=
  ⟨moment, fromisoformat_isoformat moment, rfl⟩

/-- A timestamp that is kept is an ISO form. -/
theorem normalizeTimestamp_iso {value : Option (List Char)} {text : List Char}
    (member : text ∈ normalizeTimestamp value) : IsIsoText text := by
  simp only [normalizeTimestamp, Option.bind_eq_bind, Option.mem_def,
    Option.bind_eq_some_iff] at member
  obtain ⟨raw, -, written⟩ := member
  split at written
  next parsed found =>
    obtain rfl := Option.some.inj written
    exact isIsoText_isoformat parsed
  next =>
    obtain ⟨pattern, -, parsed⟩ := List.exists_of_findSome?_eq_some written
    obtain ⟨moment, -, rfl⟩ := Option.map_eq_some_iff.mp parsed
    exact isIsoText_isoformat moment

end Fields

section Amounts

/-- A double is finite if its magnitude stays below the overflow threshold. -/
theorem isFinite_of {negative : Bool} {magnitude : ℚ} :
    (Double.of negative magnitude).IsFinite ↔ |magnitude| < Binary64.overflow := by
  rw [← not_le, ← Binary64.round_eq_none_iff]
  unfold Double.of
  split
  next overflows => exact iff_of_false id (not_not.mpr overflows)
  next v rounded =>
    refine iff_of_true ?_ (by rw [rounded]; exact Option.some_ne_none v)
    split
    · split
      · trivial
      · trivial
    · trivial

/-- An integer is refused exactly from that threshold on. -/
theorem ofInt_eq_none_iff {n : ℤ} :
    Double.ofInt n = none ↔ Binary64.overflow ≤ |(n : ℚ)| := by
  rw [← Binary64.round_eq_none_iff]
  unfold Double.ofInt
  split
  next overflows => exact iff_of_true rfl overflows
  next v rounded =>
    exact iff_of_false (Option.some_ne_none _) (by rw [rounded]; exact Option.some_ne_none v)

theorem isFinite_ofInt {n : ℤ} {x : Double} (found : Double.ofInt n = some x) : x.IsFinite := by
  unfold Double.ofInt at found
  split at found
  next => cases found
  next =>
    cases found
    trivial

/-- A text makes a finite double exactly if its number stays below the threshold. -/
theorem isFinite_ofText {text : List Char} :
    (∀ x ∈ Double.ofText text, x.IsFinite) ↔
      ∀ number, Decimal.literal (text.map toAscii) = some number →
        |number| < Binary64.overflow := by
  simp only [Double.ofText, Option.mem_def, Option.map_eq_some_iff, forall_exists_index, and_imp,
    forall_apply_eq_imp_iff₂, isFinite_of, abs_abs]

variable (isPrintable : Char → Bool)

/-- The amount of a JSON object, as a number or as the number that its text denotes, does
not reach the range of the infinities. -/
def AmountInRange : Value → Prop
  | .none => True
  | .bool _ => True
  | .int n => |(n : ℚ)| < Binary64.overflow
  | .float x => x.IsFinite
  | value => ∀ number, Decimal.literal ((amountCandidate (value.toStr isPrintable)).map toAscii) =
      some number → |number| < Binary64.overflow

/-- An amount is normalized to a finite one exactly when it is in range. -/
theorem normalizeAmount_finite_iff (value : Value) :
    (∃ amount, normalizeAmount isPrintable value = .ok amount ∧ ∀ x ∈ amount, x.IsFinite) ↔
      AmountInRange isPrintable value := by
  have ok : ∀ amount : Option Double,
      (∃ other, (Except.ok amount : Except Exception (Option Double)) = .ok other ∧
        ∀ x ∈ other, x.IsFinite) ↔ ∀ x ∈ amount, x.IsFinite := by
    intro amount
    constructor
    · intro found
      obtain ⟨other, same, finite⟩ := found
      rwa [Except.ok.inj same]
    · exact fun finite => ⟨amount, rfl, finite⟩
  cases value with
  | none => exact (ok none).trans (by simp [AmountInRange])
  | bool b =>
      refine (ok _).trans ?_
      simp only [Option.mem_some_iff, forall_eq', isFinite_of, AmountInRange, iff_true]
      cases b with
      | true => decide +kernel
      | false => decide +kernel
  | int n =>
      rw [AmountInRange, normalizeAmount, ← not_le, ← ofInt_eq_none_iff]
      cases found : Double.ofInt n with
      | none =>
          refine iff_of_false ?_ (not_not.mpr rfl)
          intro impossible
          obtain ⟨amount, raised, -⟩ := impossible
          cases raised
      | some x =>
          refine iff_of_true ⟨some x, rfl, ?_⟩ (Option.some_ne_none x)
          intro other member
          obtain rfl := Option.some.inj member
          exact isFinite_ofInt found
  | float x => exact (ok _).trans (by simp [AmountInRange])
  | str text => exact (ok _).trans isFinite_ofText
  | list items => exact (ok _).trans isFinite_ofText
  | dict items => exact (ok _).trans isFinite_ofText

/-- An amount raises nothing but `OverflowError`. -/
theorem normalizeAmount_error {value : Value} {raised : Exception}
    (failed : normalizeAmount isPrintable value = .error raised) : raised = .overflowError := by
  unfold normalizeAmount at failed
  split at failed
  case h_3 n =>
    split at failed
    · cases failed
    · cases failed
      rfl
  all_goals cases failed

end Amounts

section Extractions

variable {limits : Json.Limits} {isPrintable : Char → Bool} {rawOutput : List Char}

/-- Loading a dictionary raises what the decoder raises. -/
theorem loadsDict_error {text : List Char} {raised : Exception}
    (failed : loadsDict limits text = .error raised) : Json.Raised limits raised := by
  unfold loadsDict at failed
  split at failed
  next => cases failed
  next => cases failed
  next => cases failed
  next other found =>
    cases failed
    exact loads_error found

theorem wholeDict_error {raised : Exception}
    (failed : wholeDict limits rawOutput = .error raised) : Json.Raised limits raised := by
  rcases Procedure.bind_eq_error.mp failed with failed | ⟨first, -, failed⟩
  · exact loadsDict_error failed
  split at failed
  next => cases failed
  next =>
    simp only at failed
    split at failed
    next => cases failed
    next => exact loadsDict_error failed

/-- So does loading the first balanced braces. -/
theorem balancedDict_error {raised : Exception}
    (failed : balancedDict limits rawOutput = .error raised) : Json.Raised limits raised := by
  unfold balancedDict at failed
  split at failed
  next =>
    cases failed
    exact Or.inl trivial
  next =>
    rcases Procedure.bind_eq_error.mp failed with failed | ⟨value, -, failed⟩
    · exact loads_error failed
    split at failed
    next => cases failed
    next =>
      cases failed
      exact Or.inl trivial

/-- What `_extract_json_dict` raises is a `ValueError`, unless the nesting is too deep. -/
theorem extractJsonDict_error {raised : Exception}
    (failed : extractJsonDict limits rawOutput = .error raised) : Json.Raised limits raised := by
  unfold extractJsonDict at failed
  split at failed
  next =>
    cases failed
    exact Or.inl trivial
  next =>
    rcases Procedure.bind_eq_error.mp failed with failed | ⟨found, -, failed⟩
    · exact wholeDict_error failed
    split at failed
    next => cases failed
    next => exact balancedDict_error failed

/-- Where a JSON object is found, its amount alone decides. -/
theorem returnsWellFormed_of_dict {payload : List (List Char × Value)}
    (found : extractJsonDict limits rawOutput = .ok payload) :
    ReturnsWellFormed (parseExtractionOutput limits isPrintable rawOutput) ↔
      AmountInRange isPrintable (get payload "amount") := by
  rw [← normalizeAmount_finite_iff]
  simp only [parseExtractionOutput, found, normalizeFields, bind, Except.bind, pure, Except.pure]
  cases normalized : normalizeAmount isPrintable (get payload "amount") with
  | error raised =>
      refine iff_of_false ?_ ?_
      · rw [normalizeAmount_error isPrintable normalized]
        exact id
      · intro impossible
        obtain ⟨amount, same, -⟩ := impossible
        cases same
  | ok amount =>
      constructor
      · exact fun wellFormed => ⟨amount, rfl, wellFormed.amount⟩
      · intro finite
        obtain ⟨other, same, finite⟩ := finite
        obtain rfl := Except.ok.inj same
        exact ⟨finite, fun name => normalizeString_stripped, fun id => normalizeString_stripped,
          fun text => normalizeTimestamp_iso⟩

/-- The output of the parser is well formed, or it raises a `ValueError`, exactly when the
amount of the JSON object in the text is in range. This is for nesting below the recursion limit,
and whether or not `int` bounds the digits of its texts. -/
theorem returnsWellFormed_iff (digits : Option ℕ) (isPrintable : Char → Bool)
    (rawOutput : List Char) :
    ReturnsWellFormed (parseExtractionOutput ⟨digits, none⟩ isPrintable rawOutput) ↔
      ∀ payload, extractJsonDict ⟨digits, none⟩ rawOutput = .ok payload →
        AmountInRange isPrintable (get payload "amount") := by
  cases extracted : extractJsonDict ⟨digits, none⟩ rawOutput with
  | error raised =>
      have failed : parseExtractionOutput ⟨digits, none⟩ isPrintable rawOutput =
          .error raised := by
        simp only [parseExtractionOutput, extracted, bind, Except.bind]
      rw [failed]
      refine iff_of_true ?_ ?_
      · exact (extractJsonDict_error extracted).resolve_right fun deep => deep.2 rfl
      · intro payload impossible
        cases impossible
  | ok payload =>
      rw [returnsWellFormed_of_dict extracted]
      constructor
      · intro inRange other same
        rwa [← Except.ok.inj same]
      · exact fun all => all payload rfl

/-- The fallback payload is well formed. -/
theorem buildFallbackPayload_wellFormed : buildFallbackPayload.WellFormed where
  amount _ absent := by cases absent
  bankName _ absent := by cases absent
  transactionId _ absent := by cases absent
  timestamp _ absent := by cases absent

/-- Whatever the parser raises becomes the fallback, so that only what it returns matters. -/
theorem llmExtract_wellFormed_iff :
    (llmExtract limits isPrintable rawOutput).WellFormed ↔
      ∀ payload, parseExtractionOutput limits isPrintable rawOutput = .ok payload →
        payload.WellFormed := by
  cases parsed : parseExtractionOutput limits isPrintable rawOutput with
  | ok payload =>
      have answer : llmExtract limits isPrintable rawOutput = payload := by
        simp only [llmExtract, extractTransactionData, parsed]
      rw [answer]
      constructor
      · intro wellFormed other same
        rwa [← Except.ok.inj same]
      · exact fun all => all payload rfl
  | error raised =>
      have answer : llmExtract limits isPrintable rawOutput = buildFallbackPayload := by
        cases raised with
        | valueError message => simp only [llmExtract, extractTransactionData, parsed]
        | jsonDecodeError => simp only [llmExtract, extractTransactionData, parsed]
        | overflowError => simp only [llmExtract, extractTransactionData, parsed]
        | recursionError => simp only [llmExtract, extractTransactionData, parsed]
      rw [answer]
      refine iff_of_true buildFallbackPayload_wellFormed ?_
      intro payload impossible
      cases impossible

/-- `str.isprintable` on the ASCII characters -/
def isAsciiPrintable (c : Char) : Bool := 32 ≤ c.toNat ∧ c.toNat < 127

/-- An object whose amount is not a number -/
def nanOutput : List Char := "\x7b\"amount\": NaN\x7d".toList

theorem extractJsonDict_nanOutput :
    extractJsonDict .unlimited nanOutput = .ok [("amount".toList, .float .nan)] := by
  rfl

theorem not_returnsWellFormed_nanOutput :
    ¬ ∀ rawOutput,
      ReturnsWellFormed (parseExtractionOutput .unlimited isAsciiPrintable rawOutput) := by
  intro claim
  have inRange := (returnsWellFormed_of_dict extractJsonDict_nanOutput).mp (claim nanOutput)
  exact inRange

end Extractions

end BirrTrack.OcrService
