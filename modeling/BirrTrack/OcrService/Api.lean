import Mathlib.Data.List.Basic

/-! # The interface of the OCR service

What the service answers to an image, and what it accepts as a request for the
extraction of fields.
-/

namespace BirrTrack.OcrService

/-- A recognised line of text. -/
structure OCRLine where
  text : String

/-- The text of an OCR response: its lines, joined by line breaks. -/
def combinedText (lines : List OCRLine) : String :=
  String.ofList (List.intercalate ['\n'] (lines.map fun line => line.text.toList))

/-- The body of a request to `/llm/extract`. -/
structure LLMExtractRequest where
  text : String
  min_length : 1 ≤ text.length

/-- The validation of a request body, none for a reply with status 422. -/
def LLMExtractRequest.validate (text : String) : Option LLMExtractRequest :=
  if min_length : 1 ≤ text.length then some ⟨text, min_length⟩ else none

theorem LLMExtractRequest.isSome_validate {text : String} :
    (validate text).isSome = true ↔ text.toList ≠ [] := by
  have length : 1 ≤ text.length ↔ text.toList ≠ [] := by
    rw [← String.length_toList, ← List.length_pos_iff]
    exact Iff.rfl
  unfold validate
  split
  next accepted => exact iff_of_true rfl (length.mp accepted)
  next rejected => exact iff_of_false Bool.false_ne_true (length.not.mp rejected)

theorem mem_intercalate {α : Type} {separator : List α} {words : List (List α)} {a : α}
    (apart : a ∉ separator) : a ∈ List.intercalate separator words ↔ ∃ word ∈ words, a ∈ word := by
  induction words with
  | nil => simp [List.intercalate]
  | cons word words ih =>
      cases words with
      | nil => simp [List.intercalate]
      | cons next words =>
          rw [List.intercalate_cons_cons, List.mem_append, List.mem_append, ih,
            @List.exists_mem_cons_iff _ _ word]
          simp only [apart, or_false]

/-- The characters of an OCR text are those of its lines, and line breaks. -/
theorem mem_combinedText {lines : List OCRLine} {c : Char} (printed : c ≠ '\n') :
    c ∈ (combinedText lines).toList ↔ ∃ line ∈ lines, c ∈ line.text.toList := by
  rw [combinedText, String.toList_ofList,
    mem_intercalate (fun member => printed (List.mem_singleton.mp member))]
  simp only [List.mem_map, exists_exists_and_eq_and]

end BirrTrack.OcrService
