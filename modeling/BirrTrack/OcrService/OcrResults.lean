import BirrTrack.Python.Values

/-! # Results of the OCR engine

`normalize_paddle_ocr_raw` on the outputs of PaddleOCR, which are nested Python objects. The
results of both of its versions are read as the same lines: `normalizePaddleOcrRaw_eq`.
-/

namespace BirrTrack.OcrService

open Python

/-! ## Objects -/

/-- The exceptions that the built-in functions raise here. -/
inductive BuiltinError where
  | typeError
  | valueError
  | overflowError

/-- A Python object. A scalar of NumPy stands as the number that it is. -/
inductive Obj where
  | none
  | bool (b : Bool)
  | int (n : ℤ)
  | float (x : Double)
  | str (text : List Char)
  | list (items : List Obj)
  | tuple (items : List Obj)
  | dict (items : List (List Char × Obj))
  /-- Any other object, with what its method `json` returns; none where there is no such method
  or the call is a TypeError. -/
  | object (json : Option Obj)

namespace Obj

/-- `bool(x)` -/
def truthy : Obj → Bool
  | none => false
  | bool b => b
  | int n => n ≠ 0
  | float x => x.value ≠ some 0
  | str text => text ≠ []
  | list items => ¬ items.isEmpty
  | tuple items => ¬ items.isEmpty
  | dict items => ¬ items.isEmpty
  | object _ => true

/-- `items.get(key)`; an absent key reads as None. -/
def get (items : List (List Char × Obj)) (key : String) : Obj :=
  match items.find? fun item => item.1 = key.toList with
  | some item => item.2
  | Option.none => none

/-- What a loop over an object goes through. -/
def iterate : Obj → Except BuiltinError (List Obj)
  | str text => .ok (text.map fun c => str [c])
  | list items => .ok items
  | tuple items => .ok items
  | dict items => .ok (items.map fun item => str item.1)
  | _ => .error .typeError

/-- The items of a list or a tuple. -/
def sequence : Obj → Option (List Obj)
  | list items => some items
  | tuple items => some items
  | _ => Option.none

/-- `float(x)` -/
def toFloat : Obj → Except BuiltinError Double
  | bool b => .ok (.of false (if b then 1 else 0))
  | int n =>
      match Double.ofInt n with
      | some x => .ok x
      | Option.none => .error .overflowError
  | float x => .ok x
  | str text =>
      match Double.parse text with
      | some x => .ok x
      | Option.none => .error .valueError
  | _ => .error .typeError

end Obj

/-! ## The two decoders -/

section Decoders

-- `str(x)` of what is no text, and the entries of `np.asarray(x).ravel()`
variable (strOfOther : Obj → List Char) (asarray : Obj → Except BuiltinError (List Obj))

/-- `str(x)` -/
def Obj.toStr : Obj → List Char
  | .str text => text
  | other => strOfOther other

/-- The results in a dict of the engine. -/
def resOfDict (entry : List (List Char × Obj)) : Option (List (List Char × Obj)) :=
  match Obj.get entry "res" with
  | .dict inner => some inner
  | _ => if entry.any fun item => item.1 = "rec_texts".toList then some entry else none

/-- `_extract_res_dict` -/
def extractResDict : Obj → Option (List (List Char × Obj))
  | .dict entry => resOfDict entry
  | .object (some (.dict asDict)) => resOfDict asDict
  | _ => none

/-- The score at a place, zero where there is none. -/
def scoreAt (flatScores : List Obj) (i : ℕ) : Except BuiltinError Double :=
  match flatScores[i]? with
  | some score => score.toFloat
  | none => .ok (.of false 0)

/-- The lines of texts with the scores at their places, from the given place on. -/
def scoredLines (flatScores : List Obj) :
    ℕ → List Obj → Except BuiltinError (List (List Char × Double))
  | _, [] => return []
  | i, rawText :: texts => do
      let textValue := strip (rawText.toStr strOfOther)
      if textValue = [] then scoredLines flatScores (i + 1) texts
      else
        let conf ← scoreAt flatScores i
        let lines ← scoredLines flatScores (i + 1) texts
        return (textValue, conf) :: lines

/-- The entries of the scores, if there are any. -/
def flatScoresOf : Obj → Except BuiltinError (List Obj)
  | .none => .ok []
  | scores => asarray scores

/-- The lines of one entry of the new version. -/
def entryLines (entry : Obj) : Except BuiltinError (List (List Char × Double)) :=
  match extractResDict entry with
  | none => return []
  | some res => do
      let texts := Obj.get res "rec_texts"
      if texts.truthy then
        let flatScores ← flatScoresOf asarray (Obj.get res "rec_scores")
        scoredLines strOfOther flatScores 0 (← texts.iterate)
      else return []

/-- What a loop gathers from each object in turn. -/
def gather (lines : Obj → Except BuiltinError (List (List Char × Double))) :
    List Obj → Except BuiltinError (List (List Char × Double))
  | [] => return []
  | obj :: objs => do return (← lines obj) ++ (← gather lines objs)

/-- `_lines_from_paddlex_predict` -/
def linesFromPaddlexPredict (rawOutput : Obj) : Except BuiltinError (List (List Char × Double)) :=
  match rawOutput with
  | .dict entry => gather (entryLines strOfOther asarray) [.dict entry]
  | .list entries => gather (entryLines strOfOther asarray) entries
  | .tuple entries => gather (entryLines strOfOther asarray) entries
  | _ => return []

/-- A score as a number, zero where it is not one. -/
def confidenceOf (confidenceValue : Obj) : Except BuiltinError Double :=
  match confidenceValue.toFloat with
  | .error .typeError => .ok (.of false 0)
  | .error .valueError => .ok (.of false 0)
  | converted => converted

/-- The line of one item of a page of the old version, if it has one. -/
def itemLines (item : Obj) : Except BuiltinError (List (List Char × Double)) :=
  match item.sequence with
  | some (_ :: textPayload :: _) =>
      match textPayload.sequence with
      | some (text :: confidenceValue :: _) => do
          let textValue := strip (text.toStr strOfOther)
          if textValue = [] then return []
          else
            let confidence ← confidenceOf confidenceValue
            return [(textValue, confidence)]
      | _ => return []
  | _ => return []

/-- The lines of one page of the old version. -/
def pageLines (page : Obj) : Except BuiltinError (List (List Char × Double)) :=
  match page.sequence with
  | some items => gather (itemLines strOfOther) items
  | none => return []

/-- `_lines_from_legacy_ocr` -/
def linesFromLegacyOcr (rawOutput : Obj) : Except BuiltinError (List (List Char × Double)) :=
  match rawOutput.sequence with
  | some pages => gather (pageLines strOfOther) pages
  | none => return []

/-- `normalize_paddle_ocr_raw` -/
def normalizePaddleOcrRaw (rawOutput : Obj) : Except BuiltinError (List (List Char × Double)) :=
  match rawOutput with
  | .none => return []
  | rawOutput => do
      let lines ← linesFromPaddlexPredict strOfOther asarray rawOutput
      if lines = [] then linesFromLegacyOcr strOfOther rawOutput else return lines

end Decoders

/-! ## Pages and their encodings -/

def Obj.IsNumber : Obj → Prop
  | .bool _ => True
  | .int _ => True
  | .float _ => True
  | _ => False

/-- A recognized text with its score. -/
structure Line where
  text : List Char
  score : Obj
  numeric : score.IsNumber

/-- The lines to be read: the texts without white space around them, where they are not blank. -/
def expectedLines (lines : List Line) : Except BuiltinError (List (List Char × Double)) :=
  (lines.filter fun line => strip line.text ≠ []).mapM fun line => do
    return (strip line.text, ← line.score.toFloat)

/-- The results of the new version for a page. -/
structure IsResult (page : List Line) (res : List (List Char × Obj)) : Prop where
  texts : (Obj.get res "rec_texts").sequence = some (page.map fun line => .str line.text)
  scores : (Obj.get res "rec_scores").sequence = some (page.map Line.score)

/-- A page as the new version returns it, with its results at the top or under `res`. -/
inductive PaddlexPage (page : List Line) : Obj → Prop where
  | top {entry : List (List Char × Obj)} (results : IsResult page entry)
      (noInner : ∀ inner, Obj.get entry "res" ≠ .dict inner) : PaddlexPage page (.dict entry)
  | inner {entry res : List (List Char × Obj)} (under : Obj.get entry "res" = .dict res)
      (results : IsResult page res) : PaddlexPage page (.dict entry)

/-- A line as the old version returns it; its box can be any object. -/
def LegacyLine (line : Line) (item : Obj) : Prop :=
  ∃ bbox textPayload, item.sequence = some [bbox, textPayload] ∧
    textPayload.sequence = some [.str line.text, line.score]

/-- A page as the old version returns it. -/
inductive LegacyPage (page : List Line) : Obj → Prop where
  | lines {obj : Obj} {items : List Obj} (contents : obj.sequence = some items)
      (encoded : List.Forall₂ LegacyLine page items) : LegacyPage page obj
  | absent (empty : page = []) : LegacyPage page .none

section Lines

/-- The lines of two pages are those of the first and then those of the second. -/
theorem expectedLines_append (front back : List Line) : expectedLines (front ++ back) =
    do return (← expectedLines front) ++ (← expectedLines back) := by
  rw [expectedLines, List.filter_append, List.mapM_append]
  rfl

/-- A line counts if something is left of its text, which then stands with its score. -/
theorem expectedLines_cons (line : Line) (lines : List Line) : expectedLines (line :: lines) =
    if strip line.text = [] then expectedLines lines
    else do
      let score ← line.score.toFloat
      let others ← expectedLines lines
      return (strip line.text, score) :: others := by
  by_cases blank : strip line.text = []
  · rw [if_pos blank, expectedLines, List.filter_cons_of_neg (by simp [blank])]
    rfl
  · rw [if_neg blank, expectedLines, List.filter_cons_of_pos (by simp [blank]), List.mapM_cons]
    simp only [bind_assoc, pure_bind]
    rfl

variable {lines : Obj → Except BuiltinError (List (List Char × Double))} {objs : List Obj}

/-- A loop over encoded pages gathers their lines in order. -/
theorem gather_eq {pages : List (List Line)}
    (encoded : List.Forall₂ (fun page obj => lines obj = expectedLines page) pages objs) :
    gather lines objs = expectedLines pages.flatten := by
  induction encoded with
  | nil => rfl
  | cons first others ih =>
      rw [gather, first, ih, List.flatten_cons, expectedLines_append]

/-- Pages without lines give none. -/
theorem gather_eq_nil {pages : List (List Line)}
    (nothing : List.Forall₂ (fun _ obj => lines obj = .ok []) pages objs) :
    gather lines objs = .ok [] := by
  induction nothing with
  | nil => rfl
  | cons first others ih =>
      rw [gather, first, ih]
      rfl

end Lines

section Encodings

variable {strOfOther : Obj → List Char} {asarray : Obj → Except BuiltinError (List Obj)}
  {page : List Line} {obj : Obj}

/-! ### The new version -/

/-- `np.asarray(scores).ravel()` of a list of numbers has as many entries, with the same values. -/
def Ravels (asarray : Obj → Except BuiltinError (List Obj)) : Prop :=
  ∀ scores obj, obj.sequence = some scores → (∀ score ∈ scores, score.IsNumber) →
    ∃ entries, asarray obj = .ok entries ∧ entries.map Obj.toFloat = scores.map Obj.toFloat

/-- The score at a text's place is its own, also where blank texts before it are skipped. -/
theorem scoredLines_eq {flatScores : List Obj} {lines : List Line} {i : ℕ}
    (own : (flatScores.drop i).map Obj.toFloat = lines.map fun line => line.score.toFloat) :
    scoredLines strOfOther flatScores i (lines.map fun line => .str line.text) =
      expectedLines lines := by
  induction lines generalizing i with
  | nil => rfl
  | cons line lines ih =>
      obtain ⟨score, others, left, same, rest⟩ := List.map_eq_cons_iff.mp own
      have here : flatScores[i]? = some score := by
        rw [← List.head?_drop, left]
        rfl
      have after : flatScores.drop (i + 1) = others := by
        rw [← List.tail_drop, left]
        rfl
      rw [List.map_cons, scoredLines, expectedLines_cons, ih (by rw [after, rest])]
      simp only [Obj.toStr, scoreAt, here, same]

theorem Obj.sequence_ne_nil {x : Obj} {items : List Obj} (contents : x.sequence = some items)
    (nonempty : items ≠ []) : x.truthy = true := by
  cases x with
  | list others => cases contents; simp [truthy, nonempty]
  | tuple others => cases contents; simp [truthy, nonempty]
  | _ => cases contents

theorem Obj.sequence_nil {x : Obj} (contents : x.sequence = some []) : x.truthy = false := by
  cases x with
  | list others => cases contents; rfl
  | tuple others => cases contents; rfl
  | _ => cases contents

theorem Obj.iterate_of_sequence {x : Obj} {items : List Obj} (contents : x.sequence = some items) :
    x.iterate = .ok items := by
  cases x with
  | list others => cases contents; rfl
  | tuple others => cases contents; rfl
  | _ => cases contents

theorem Obj.ne_none_of_sequence {x : Obj} {items : List Obj} (contents : x.sequence = some items) :
    x ≠ .none := by
  rintro rfl
  cases contents

/-- A dictionary with texts of its own and no inner result is the result. -/
theorem resOfDict_of_texts {entry : List (List Char × Obj)} {items : List Obj}
    (noInner : ∀ inner, Obj.get entry "res" ≠ .dict inner)
    (texts : (Obj.get entry "rec_texts").sequence = some items) : resOfDict entry = some entry := by
  have known : entry.any (fun item => item.1 = "rec_texts".toList) = true := by
    by_contra absent
    have missing : entry.find? (fun item => item.1 = "rec_texts".toList) = none := by
      rw [List.find?_eq_none]
      intro item member same
      exact absent (List.any_eq_true.mpr ⟨item, member, same⟩)
    rw [Obj.get, missing] at texts
    cases texts
  unfold resOfDict
  split
  next inner found => exact absurd found (noInner inner)
  next => exact if_pos known

/-- The result of a page of the new version is found in its object. -/
theorem PaddlexPage.exists_results (encoded : PaddlexPage page obj) :
    ∃ res, extractResDict obj = some res ∧ IsResult page res := by
  cases encoded with
  | @top entry results noInner =>
      exact ⟨entry, resOfDict_of_texts noInner results.texts, results⟩
  | @inner entry res under results =>
      refine ⟨res, ?_, results⟩
      rw [extractResDict, resOfDict, under]

/-- A page of the new version gives the lines that are on it. -/
theorem entryLines_eq (ravels : Ravels asarray) (encoded : PaddlexPage page obj) :
    entryLines strOfOther asarray obj = expectedLines page := by
  obtain ⟨res, found, results⟩ := encoded.exists_results
  obtain ⟨entries, converted, same⟩ := ravels _ _ results.scores fun score member => by
    obtain ⟨line, -, rfl⟩ := List.mem_map.mp member
    exact line.numeric
  have scores : flatScoresOf asarray (Obj.get res "rec_scores") = .ok entries := by
    rw [← converted]
    unfold flatScoresOf
    split
    next absent => exact absurd absent (Obj.ne_none_of_sequence results.scores)
    next => rfl
  rw [entryLines, found]
  simp only []
  cases page with
  | nil => rw [Obj.sequence_nil results.texts]; rfl
  | cons line lines =>
      rw [if_pos (Obj.sequence_ne_nil results.texts (List.cons_ne_nil _ _)), scores,
        Obj.iterate_of_sequence results.texts]
      refine scoredLines_eq ?_
      rw [List.drop_zero, same, List.map_map]
      rfl

/-! ### The old version -/

theorem confidenceOf_isNumber {score : Obj} (numeric : score.IsNumber) :
    confidenceOf score = score.toFloat := by
  cases score with
  | bool b => rfl
  | float x => rfl
  | int n =>
      simp only [confidenceOf, Obj.toFloat]
      cases Double.ofInt n <;> rfl
  | _ => exact numeric.elim

/-- A line of the old version gives itself. -/
theorem itemLines_eq {line : Line} (encoded : LegacyLine line obj) :
    itemLines strOfOther obj = expectedLines [line] := by
  obtain ⟨bbox, textPayload, contents, payload⟩ := encoded
  have read : itemLines strOfOther obj = if strip line.text = [] then .ok []
      else do return [(strip line.text, ← confidenceOf line.score)] := by
    rw [itemLines, contents]
    simp only [payload]
    rfl
  rw [read, expectedLines_cons, confidenceOf_isNumber line.numeric]
  rfl

/-- A page of the old version gives the lines that are on it. -/
theorem pageLines_eq (encoded : LegacyPage page obj) :
    pageLines strOfOther obj = expectedLines page := by
  cases encoded with
  | lines contents encoded =>
      rw [pageLines, contents]
      have single : List.Forall₂ (fun lines item => itemLines strOfOther item = expectedLines lines)
          (page.map fun line => [line]) _ :=
        List.forall₂_map_left_iff.mpr (encoded.imp fun line item => itemLines_eq)
      have whole : (page.map fun line => [line]).flatten = page := by
        rw [← List.flatMap_def, List.flatMap_singleton']
      exact (gather_eq single).trans (congrArg expectedLines whole)
  | absent empty => rw [empty]; rfl

/-- The first decoder reads nothing in results of the old version. -/
theorem entryLines_legacyPage (encoded : LegacyPage page obj) :
    entryLines strOfOther asarray obj = .ok [] := by
  cases encoded with
  | lines contents encoded =>
      cases obj with
      | list items => rfl
      | tuple items => rfl
      | _ => cases contents
  | absent empty => rfl

/-- The second decoder reads nothing in results of the new version. -/
theorem pageLines_paddlexPage (encoded : PaddlexPage page obj) :
    pageLines strOfOther obj = .ok [] := by
  cases encoded <;> rfl

/-! ### Both versions -/

variable {raw : Obj} {objs : List Obj} {pages : List (List Line)}

/-- A sequence is read by the new decoder, and by the old one if that finds no line. -/
theorem normalizePaddleOcrRaw_of_sequence (contents : raw.sequence = some objs) :
    normalizePaddleOcrRaw strOfOther asarray raw = (do
      let lines ← gather (entryLines strOfOther asarray) objs
      if lines = [] then gather (pageLines strOfOther) objs else return lines) := by
  cases raw with
  | list items => cases contents; rfl
  | tuple items => cases contents; rfl
  | _ => cases contents

/-- Pages of the new version give all their lines in order. -/
theorem normalizePaddleOcrRaw_paddlex (ravels : Ravels asarray)
    (contents : raw.sequence = some objs)
    (encoded : List.Forall₂ PaddlexPage pages objs) :
    normalizePaddleOcrRaw strOfOther asarray raw = expectedLines pages.flatten := by
  have first : gather (entryLines strOfOther asarray) objs = expectedLines pages.flatten :=
    gather_eq (encoded.imp fun page obj => entryLines_eq ravels)
  have second : gather (pageLines strOfOther) objs = .ok [] :=
    gather_eq_nil (encoded.imp fun page obj => pageLines_paddlexPage)
  rw [normalizePaddleOcrRaw_of_sequence contents, first, second]
  cases expectedLines pages.flatten with
  | error failure => rfl
  | ok lines => cases lines <;> rfl

/-- So do pages of the old version, of which the new decoder reads none. -/
theorem normalizePaddleOcrRaw_legacy (contents : raw.sequence = some objs)
    (encoded : List.Forall₂ LegacyPage pages objs) :
    normalizePaddleOcrRaw strOfOther asarray raw = expectedLines pages.flatten := by
  have first : gather (entryLines strOfOther asarray) objs = .ok [] :=
    gather_eq_nil (encoded.imp fun page obj => entryLines_legacyPage)
  have second : gather (pageLines strOfOther) objs = expectedLines pages.flatten :=
    gather_eq (encoded.imp fun page obj => pageLines_eq)
  rw [normalizePaddleOcrRaw_of_sequence contents, first, second]
  rfl

/-- The results of both versions for the same pages are read as the lines of these pages, in
order, each text with its own score. -/
theorem normalizePaddleOcrRaw_eq (strOfOther : Obj → List Char) (ravels : Ravels asarray)
    {raw' : Obj} {objs' : List Obj} (contents : raw.sequence = some objs)
    (encoded : List.Forall₂ PaddlexPage pages objs) (contents' : raw'.sequence = some objs')
    (encoded' : List.Forall₂ LegacyPage pages objs') :
    normalizePaddleOcrRaw strOfOther asarray raw = expectedLines pages.flatten ∧
      normalizePaddleOcrRaw strOfOther asarray raw' = expectedLines pages.flatten :=
  ⟨normalizePaddleOcrRaw_paddlex ravels contents encoded,
    normalizePaddleOcrRaw_legacy contents' encoded'⟩

end Encodings

section Example

/-- How NumPy converts numbers of one type. -/
def flatEntries (scores : Obj) : Except BuiltinError (List Obj) :=
  .ok (scores.sequence.getD [scores])

def sampleBox : Obj :=
  .list [.list [.int 0, .int 0], .list [.int 10, .int 0], .list [.int 10, .int 10],
    .list [.int 0, .int 10]]

def samplePage : List Line :=
  [⟨"Thank You! ".toList, .float (.of false (99 / 100)), trivial⟩, ⟨" ".toList, .int 1, trivial⟩]

theorem normalizePaddleOcrRaw_page :
    normalizePaddleOcrRaw (fun _ => []) flatEntries
        (.list [.dict [("res".toList, .dict
          [("rec_texts".toList, .list [.str "Thank You! ".toList, .str " ".toList]),
            ("rec_scores".toList, .list [.float (.of false (99 / 100)), .int 1])])],
          .dict [("rec_texts".toList, .list []), ("rec_scores".toList, .list [])]]) =
      .ok [("Thank You!".toList, .of false (99 / 100))] ∧
    normalizePaddleOcrRaw (fun _ => []) flatEntries
        (.list [.list [.list [sampleBox, .tuple [.str "Thank You! ".toList,
            .float (.of false (99 / 100))]],
          .list [sampleBox, .tuple [.str " ".toList, .int 1]]], .none]) =
      .ok [("Thank You!".toList, .of false (99 / 100))] := by
  have ravels : Ravels flatEntries := by
    intro scores obj contents numeric
    exact ⟨scores, by rw [flatEntries, contents]; rfl, rfl⟩
  have top : ∀ inner, Obj.get [("rec_texts".toList, .list []), ("rec_scores".toList, .list [])]
      "res" ≠ .dict inner := by
    intro inner found
    cases found
  refine @normalizePaddleOcrRaw_eq flatEntries _ _ [samplePage, []] (fun _ => []) ravels _ _ rfl ?_
    rfl ?_
  · exact .cons (.inner rfl ⟨rfl, rfl⟩) (.cons (.top ⟨rfl, rfl⟩ top) .nil)
  · exact .cons (.lines rfl (.cons ⟨sampleBox, _, rfl, rfl⟩ (.cons ⟨sampleBox, _, rfl, rfl⟩ .nil)))
      (.cons (.absent rfl) .nil)

end Example

end BirrTrack.OcrService
