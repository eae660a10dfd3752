import BirrTrack.OcrService.BalancedBraces

/-! # Embedded objects

`_extract_json_dict` on a text with an object in it. The three attempts agree on the object
unless a brace stands before it, the removal of the fence marks changes it or `json.loads` overruns
a limit of the interpreter: `recovers_iff`.
-/

namespace BirrTrack.OcrService

open Python Python.Json

/-! ## Fence marks -/

/-- A text without the marks of fenced code blocks. -/
def unfenced (text : List Char) : List Char :=
  replace ['`', '`', '`'] [] (replace ['`', '`', '`', 'j', 's', 'o', 'n'] [] text)

theorem unfenced_append_of_not_mem {front : List Char} (absent : '`' ∉ front) (rest : List Char) :
    unfenced (front ++ rest) = front ++ unfenced rest := by
  rw [unfenced, replace_append_of_not_mem absent, replace_append_of_not_mem absent]
  rfl

theorem unfenced_cons {c : Char} (apart : c ≠ '`') (rest : List Char) :
    unfenced (c :: rest) = c :: unfenced rest :=
  @unfenced_append_of_not_mem [c] (fun member => apart (List.mem_singleton.mp member).symm) rest

/-- A character that no fence mark has keeps the marks on its two sides apart. -/
theorem unfenced_append_cons {c : Char} (absent : c ∉ ['`', 'j', 's', 'o', 'n'])
    (front back : List Char) :
    unfenced (front ++ c :: back) = unfenced front ++ c :: unfenced back := by
  have outside : c ∉ ['`', '`', '`', 'j', 's', 'o', 'n'] ∧ c ∉ ['`', '`', '`'] := by
    simp only [List.mem_cons, List.not_mem_nil, or_false, not_or] at absent ⊢
    tauto
  rw [unfenced, replace_append_cons (List.cons_ne_nil _ _) outside.1,
    replace_append_cons (List.cons_ne_nil _ _) outside.2]
  rfl

theorem unfenced_of_not_mem {text : List Char} (absent : '`' ∉ text) : unfenced text = text := by
  have whole := unfenced_append_of_not_mem absent []
  rwa [List.append_nil, show unfenced [] = [] from rfl, List.append_nil] at whole

/-! ## Objects without fence marks -/

theorem stringBody_of_cons {c : Char} {rest : List Char} (notEscape : c ≠ '\\')
    (written : StringBody (c :: rest)) : StringBody rest := by
  cases written with
  | plain notQuote notEscape printed body => exact body
  | escape known body => exact absurd rfl notEscape
  | unicode hex body => exact absurd rfl notEscape

theorem stringBody_of_append {front rest : List Char} (plain : ∀ c ∈ front, c ≠ '\\')
    (written : StringBody (front ++ rest)) : StringBody rest := by
  induction front with
  | nil => exact written
  | cons c front ih =>
      exact ih (fun d member => plain d (List.mem_cons_of_mem _ member))
        (stringBody_of_cons (plain c List.mem_cons_self) written)

/-- A string stays one when a mark is deleted from it. -/
theorem stringBody_replace {mark : List Char} (plain : ∀ c ∈ mark, c ≠ '\\') {body : List Char}
    (written : StringBody body) : StringBody (replace ('`' :: mark) [] body) := by
  induction length : body.length using Nat.strongRecOn generalizing body with
  | _ n ih =>
      subst length
      by_cases occurs : '`' :: mark <+: body
      · obtain ⟨rest, rfl⟩ := occurs
        have plain' : ∀ c ∈ '`' :: mark, c ≠ '\\' := by
          intro c member
          rcases List.mem_cons.mp member with rfl | member
          · decide
          · exact plain c member
        rw [replace_append_self (List.cons_ne_nil _ _), List.nil_append]
        refine ih rest.length ?_ (stringBody_of_append plain' written) rfl
        simp only [List.length_append, List.length_cons]
        omega
      · cases written with
        | nil => exact .nil
        | @plain c rest notQuote notEscape printed body =>
            rw [replace_cons occurs]
            exact .plain notQuote notEscape printed (ih rest.length (Nat.lt_succ_self _) body rfl)
        | @escape c rest known body =>
            have absent : '`' ∉ ['\\', c] := by
              simp only [List.mem_cons, List.not_mem_nil, or_false] at known ⊢
              rcases known with rfl | rfl | rfl | rfl | rfl | rfl | rfl | rfl <;> decide
            rw [show '\\' :: c :: rest = ['\\', c] ++ rest from rfl,
              replace_append_of_not_mem absent]
            exact .escape known (ih rest.length (by simp only [List.length_cons]; omega) body rfl)
        | @unicode a b c d rest hex body =>
            have absent : '`' ∉ ['\\', 'u', a, b, c, d] := by
              intro member
              have digit : '`' ∈ [a, b, c, d] := by simpa using member
              exact absurd (hex _ digit) (by decide)
            rw [show '\\' :: 'u' :: a :: b :: c :: d :: rest =
                ['\\', 'u', a, b, c, d] ++ rest from rfl,
              replace_append_of_not_mem absent]
            exact .unicode hex (ih rest.length (by simp only [List.length_cons]; omega) body rfl)

/-- Taking the marks out of a string leaves a string. -/
theorem stringBody_unfenced {body : List Char} (written : StringBody body) :
    StringBody (unfenced body) :=
  stringBody_replace (by decide) (stringBody_replace (by decide) written)

/-- Texts that stay of their kind without fence marks, whatever follows them. -/
def Unfences (kind : List Char → Prop) : Prop :=
  ∀ text, kind text → kind (unfenced text) ∧
    ∀ rest, unfenced (text ++ rest) = unfenced text ++ unfenced rest

theorem unfences_of_not_mem {kind : List Char → Prop} (absent : ∀ text, kind text → '`' ∉ text) :
    Unfences kind := by
  intro text written
  rw [unfenced_of_not_mem (absent text written)]
  exact ⟨written, unfenced_append_of_not_mem (absent text written)⟩

theorem unfences_isString : Unfences IsString := by
  rintro text ⟨body, rfl, written⟩
  have parts : ∀ rest, unfenced ('"' :: (body ++ '"' :: rest)) =
      '"' :: (unfenced body ++ '"' :: unfenced rest) := by
    intro rest
    rw [unfenced_cons (by decide), unfenced_append_cons (by decide)]
  have whole := parts []
  rw [show unfenced [] = [] from rfl] at whole
  refine ⟨⟨unfenced body, whole, stringBody_unfenced written⟩, fun rest => ?_⟩
  rw [whole, List.cons_append, List.append_assoc, List.singleton_append, parts]
  simp

theorem not_mem_of_isPlain {text : List Char} (plain : ∀ c ∈ text, isPlain c = true) :
    '`' ∉ text := fun member => absurd (plain '`' member) (by decide)

theorem not_mem_blank {text : List Char} (blanks : Blank text) : '`' ∉ text :=
  fun member => absurd (blanks '`' member) (by decide)

theorem unfenced_blank_append {blank : List Char} (blanks : Blank blank) (rest : List Char) :
    unfenced (blank ++ rest) = blank ++ unfenced rest :=
  unfenced_append_of_not_mem (not_mem_blank blanks) rest

section Brackets

variable {kind : List Char → Prop} {closing : Char}

/-- Taking them out of items leaves items. -/
theorem unfences_items (unfences : Unfences kind) (apart : closing ≠ '`') :
    Unfences (Items kind closing) := by
  intro text written
  induction written with
  | @last item blank written blanks =>
      obtain ⟨kept, split⟩ := unfences item written
      have parts : ∀ rest, unfenced (item ++ (blank ++ closing :: rest)) =
          unfenced item ++ (blank ++ closing :: unfenced rest) := by
        intro rest
        rw [split, unfenced_blank_append blanks, unfenced_cons apart]
      have whole := parts []
      rw [show unfenced [] = [] from rfl] at whole
      rw [whole]
      refine ⟨.last kept blanks, fun rest => ?_⟩
      simp only [List.append_assoc, List.singleton_append, parts]
  | @more item blank blank' others written blanks blanks' rest ih =>
      obtain ⟨kept, split⟩ := unfences item written
      obtain ⟨kept', split'⟩ := ih
      have parts : ∀ rest, unfenced (item ++ (blank ++ ',' :: (blank' ++ rest))) =
          unfenced item ++ (blank ++ ',' :: (blank' ++ unfenced rest)) := by
        intro rest
        rw [split, unfenced_blank_append blanks, unfenced_cons (by decide),
          unfenced_blank_append blanks']
      rw [parts]
      refine ⟨.more kept blanks blanks' kept', fun rest => ?_⟩
      simp only [List.append_assoc, List.cons_append, parts, split']

theorem unfences_bracket (unfences : Unfences kind) (apart : closing ≠ '`') :
    Unfences (Bracket kind closing) := by
  rintro text (@⟨blank, blanks⟩ | @⟨blank, text, blanks, written⟩)
  · have parts : ∀ rest, unfenced (blank ++ closing :: rest) =
        blank ++ closing :: unfenced rest := by
      intro rest
      rw [unfenced_blank_append blanks, unfenced_cons apart]
    have whole := parts []
    rw [show unfenced [] = [] from rfl] at whole
    rw [whole]
    refine ⟨.empty blanks, fun rest => ?_⟩
    rw [List.append_assoc, List.singleton_append, parts, List.append_assoc, List.singleton_append]
  · obtain ⟨kept, split⟩ := unfences_items unfences apart text written
    rw [unfenced_blank_append blanks]
    refine ⟨.items blanks kept, fun rest => ?_⟩
    rw [List.append_assoc, unfenced_blank_append blanks, split, List.append_assoc]

end Brackets

theorem unfences_isMember {kind : List Char → Prop} (unfences : Unfences kind) :
    Unfences (IsMember kind) := by
  rintro text ⟨key, blank, blank', written, rfl, isString, blanks, blanks', isValue⟩
  obtain ⟨keptKey, splitKey⟩ := unfences_isString key isString
  obtain ⟨kept, split⟩ := unfences written isValue
  have parts : ∀ rest, unfenced (key ++ (blank ++ ':' :: (blank' ++ rest))) =
      unfenced key ++ (blank ++ ':' :: (blank' ++ unfenced rest)) := by
    intro rest
    rw [splitKey, unfenced_blank_append blanks, unfenced_cons (by decide),
      unfenced_blank_append blanks']
  rw [parts]
  refine ⟨⟨_, _, _, _, rfl, keptKey, blanks, blanks', kept⟩, fun rest => ?_⟩
  simp only [List.append_assoc, List.cons_append, parts, split]

theorem unfences_cons {kind : List Char → Prop} {c : Char} (unfences : Unfences kind)
    (apart : c ≠ '`') : Unfences fun text => ∃ inside, text = c :: inside ∧ kind inside := by
  rintro text ⟨inside, rfl, written⟩
  obtain ⟨kept, split⟩ := unfences inside written
  rw [unfenced_cons apart]
  refine ⟨⟨_, rfl, kept⟩, fun rest => ?_⟩
  rw [List.cons_append, unfenced_cons apart, split, List.cons_append]

/-- A value's text stays one without its fence marks: they stand in its strings only. -/
theorem unfences_isValue (depth : ℕ) : Unfences (IsValue depth) := by
  induction depth with
  | zero => exact fun text written => written.elim
  | succ depth ih =>
      have brackets := unfences_bracket ih (by decide : ']' ≠ '`')
      have braces := unfences_bracket (unfences_isMember ih) (by decide : '}' ≠ '`')
      rintro text (isString | isWord | isNumber | isList | isDict)
      · obtain ⟨kept, split⟩ := unfences_isString text isString
        exact ⟨Or.inl kept, split⟩
      · obtain ⟨kept, split⟩ :=
          unfences_of_not_mem (fun _ isWord => not_mem_of_isPlain (isPlain_of_isWord isWord))
            text isWord
        exact ⟨Or.inr (Or.inl kept), split⟩
      · obtain ⟨kept, split⟩ :=
          unfences_of_not_mem (fun _ isNumber => not_mem_of_isPlain (isPlain_of_isNumber isNumber))
            text isNumber
        exact ⟨Or.inr (Or.inr (Or.inl kept)), split⟩
      · obtain ⟨kept, split⟩ := unfences_cons brackets (by decide : '[' ≠ '`') text isList
        exact ⟨Or.inr (Or.inr (Or.inr (Or.inl kept))), split⟩
      · obtain ⟨kept, split⟩ := unfences_cons braces (by decide : '{' ≠ '`') text isDict
        exact ⟨Or.inr (Or.inr (Or.inr (Or.inr kept))), split⟩

/-- Taking them out of an object leaves an object. -/
theorem unfences_isObject : Unfences IsObject := by
  rintro text ⟨depth, isDict⟩
  have members := unfences_bracket (unfences_isMember (unfences_isValue depth))
    (by decide : '}' ≠ '`')
  obtain ⟨kept, split⟩ := unfences_cons members (by decide : '{' ≠ '`') text isDict
  exact ⟨⟨depth, kept⟩, split⟩

/-! ## Objects in texts -/

section Occurrences

variable {front front' text text' back back' : List Char}

theorem head_isObject (isObject : IsObject text) : text.head? = some '{' := by
  obtain ⟨depth, inside, rfl, -⟩ := isObject
  rfl

/-- Of two objects at the start of a text both are the same. -/
theorem isObject_unique (isObject : IsObject text) (isObject' : IsObject text')
    (same : text ++ back = text' ++ back') : text = text' ∧ back = back' := by
  have found := balancedFrom_isObject isObject back
  rw [same, balancedFrom_isObject isObject'] at found
  obtain rfl := Option.some.inj found
  exact ⟨rfl, List.append_cancel_left same⟩

/-- No object stands in a text before the given one. -/
def FirstObject (front text back : List Char) : Prop :=
  ∀ skipped passed written rest, front = skipped ++ passed → passed ≠ [] →
    passed ++ (text ++ back) = written ++ rest → ¬ IsObject written

theorem firstObject_of_not_mem (noBrace : '{' ∉ front) : FirstObject front text back := by
  rintro skipped passed written rest rfl nonempty same isObject
  obtain ⟨c, others, rfl⟩ := List.exists_cons_of_ne_nil nonempty
  obtain ⟨depth, inside, rfl, -⟩ := isObject
  obtain rfl : c = '{' := (List.cons.inj same).1
  exact noBrace (by simp)

/-- Where an object follows a text without braces, it is the first one. -/
theorem same_object (first : FirstObject front text back) (isObject : IsObject text)
    (isObject' : IsObject text') (noBrace : '{' ∉ front')
    (same : front ++ (text ++ back) = front' ++ (text' ++ back')) :
    front = front' ∧ text = text' ∧ back = back' := by
  rcases List.append_eq_append_iff.mp same with ⟨passed, rfl, same'⟩ | ⟨passed, rfl, same'⟩
  · cases passed with
    | nil =>
        rw [List.nil_append] at same'
        exact ⟨(List.append_nil front).symm, isObject_unique isObject isObject' same'⟩
    | cons c passed =>
        obtain ⟨depth, inside, rfl, -⟩ := isObject
        obtain rfl : '{' = c := (List.cons.inj same').1
        exact absurd (by simp) noBrace
  · cases passed with
    | nil =>
        rw [List.nil_append] at same'
        exact ⟨List.append_nil front', isObject_unique isObject isObject' same'.symm⟩
    | cons c passed =>
        exact absurd isObject' (first front' _ text' back' rfl (List.cons_ne_nil _ _) same'.symm)

theorem not_mem_of_white {text : List Char} (white : White text) : '{' ∉ text :=
  fun member => absurd (white '{' member) (by decide)

theorem white_of_blank {text : List Char} (blanks : Blank text) : White text := by
  intro c member
  rcases of_decide_eq_true (blanks c member) with rfl | rfl | rfl | rfl <;> decide

/-- A text stops `json.loads` by a number with too many digits or by too deep a nesting, which is
no `JSONDecodeError`. -/
def Overruns (limits : Limits) (text : List Char) : Prop :=
  ∃ raised, loads limits text = .error raised ∧ raised ≠ .jsonDecodeError

variable {limits : Limits}

/-- What a whole text is decoded to. -/
theorem loadsDict_eq_some_iff {items : List (List Char × Value)} {whole : List Char} :
    loadsDict limits whole = .ok (some items) ↔ loads limits whole = .ok (.dict items) := by
  unfold loadsDict
  split
  next items' decoded => simp [decoded]
  next value other decoded =>
    refine iff_of_false (by simp) fun same => ?_
    exact other items (Except.ok.inj (decoded.symm.trans same))
  next decoded => simp [decoded]
  next raised other decoded => simp [decoded]

/-- An exception that is no `JSONDecodeError` is not caught. -/
theorem overruns_iff {whole : List Char} :
    Overruns limits whole ↔ ∃ raised, loadsDict limits whole = .error raised := by
  unfold Overruns loadsDict
  split
  next items' decoded => simp [decoded]
  next value other decoded => simp [decoded]
  next decoded => simp [decoded]
  next raised other decoded => simpa [decoded] using other

/-- What does not overrun a limit is decoded to an object, or it is not. -/
theorem loadsDict_eq_none {whole : List Char} (fits : ¬ Overruns limits whole)
    (other : ∀ items, loadsDict limits whole ≠ .ok (some items)) :
    loadsDict limits whole = .ok none := by
  cases found : loadsDict limits whole with
  | error raised => exact absurd (overruns_iff.mpr ⟨raised, found⟩) fits
  | ok attempt =>
      cases attempt with
      | none => rfl
      | some items => exact absurd found (other items)

/-- An object's text is decoded, unless it overruns a limit. -/
theorem exists_loads_of_not_overruns (isObject : IsObject text) (fits : ¬ Overruns limits text) :
    ∃ items, loads limits text = .ok (.dict items) := by
  obtain ⟨outcome, known, decoded, -⟩ := isObject.exists_loads limits
  cases outcome with
  | error raised => exact absurd ⟨raised, decoded, fun same => known (congrArg _ same)⟩ fits
  | ok items => exact ⟨items, decoded⟩

theorem loadsDict_isObject (isObject : IsObject text) : loadsDict limits text ≠ .ok none := by
  intro nothing
  have fits : ¬ Overruns limits text := by
    rw [overruns_iff, nothing]
    simp
  obtain ⟨items, decoded⟩ := exists_loads_of_not_overruns isObject fits
  rw [loadsDict_eq_some_iff.mpr decoded] at nothing
  cases nothing

/-- Blanks around an object change nothing for the decoder. -/
theorem loads_isObject_append (isObject : IsObject text) (blanks : Blank front)
    (blanks' : Blank back) : loads limits (front ++ (text ++ back)) = loads limits text := by
  obtain ⟨outcome, -, decoded, scanned⟩ := isObject.exists_loads limits
  have skipped : skip (front ++ (text ++ back)) = text ++ back := by
    refine skip_blank_append blanks fun c first => ?_
    rw [List.head?_append_of_ne_nil, head_isObject isObject] at first
    · obtain rfl := Option.some.inj first
      rfl
    · rintro rfl
      exact absurd (head_isObject isObject) (by simp)
  have skipped' : skip back = [] := List.dropWhile_eq_nil_iff.mpr blanks'
  have enough : (text ++ back).length ≤ (front ++ (text ++ back)).length := by simp
  rw [loads, skipped, scanned _ back enough, decoded]
  cases outcome with
  | error raised => rfl
  | ok items => exact if_pos skipped'

theorem isObject_stripped (isObject : IsObject text) : text ≠ [] ∧ Stripped text := by
  obtain ⟨inside, rfl, -⟩ := exists_neutral_of_isObject isObject
  refine ⟨List.cons_ne_nil _ _, ?_, ?_⟩
  · intro c first
    obtain rfl := Option.some.inj first
    rfl
  · intro c last
    rw [← List.cons_append, List.getLast?_concat] at last
    obtain rfl := Option.some.inj last
    rfl

/-- A stripped text is decoded to an object where the text is an object's, between white space. -/
theorem loadsDict_strip {items : List (List Char × Value)} {whole : List Char} :
    loadsDict limits (strip whole) = .ok (some items) ↔ ∃ front written back,
      whole = front ++ (written ++ back) ∧ White front ∧ White back ∧ IsObject written ∧
        loads limits written = .ok (.dict items) := by
  rw [loadsDict_eq_some_iff]
  constructor
  · intro decoded
    obtain ⟨front, back, whole_eq, white, white'⟩ := exists_strip whole
    obtain ⟨blank, written, blank', strip_eq, blanks, blanks', isObject, decoded⟩ :=
      exists_isObject_of_loads decoded
    refine ⟨front ++ blank, written, blank' ++ back, ?_, ?_, ?_, isObject, decoded⟩
    · rw [whole_eq, strip_eq]
      simp only [List.append_assoc]
    · intro c member
      exact (List.mem_append.mp member).elim (white c) (white_of_blank blanks c)
    · intro c member
      exact (List.mem_append.mp member).elim (white_of_blank blanks' c) (white' c)
  · rintro ⟨front, written, back, rfl, white, white', isObject, decoded⟩
    obtain ⟨nonempty, stripped⟩ := isObject_stripped isObject
    rw [strip_of_white white white' nonempty stripped, decoded]

end Occurrences

theorem unfenced_append_white {back : List Char} (white : White back) (front : List Char) :
    unfenced (front ++ back) = unfenced front ++ back := by
  have unmarked : '`' ∉ back := fun member => absurd (white '`' member) (by decide)
  cases back with
  | nil => rw [List.append_nil, List.append_nil]
  | cons c back =>
      have apart : c ∉ ['`', 'j', 's', 'o', 'n'] := by
        intro letter
        have space := white c List.mem_cons_self
        simp only [List.mem_cons, List.not_mem_nil, or_false] at letter
        rcases letter with rfl | rfl | rfl | rfl | rfl <;> cases space
      rw [unfenced_append_cons apart,
        unfenced_of_not_mem fun member => unmarked (List.mem_cons_of_mem _ member)]

/-- The cleaned output is the output without marks, stripped. -/
theorem cleanedOutput_eq (rawOutput : List Char) :
    cleanedOutput rawOutput = strip (unfenced rawOutput) := by
  obtain ⟨front, back, split, white, white'⟩ := exists_strip rawOutput
  have unmarked : '`' ∉ front := fun member => absurd (white '`' member) (by decide)
  conv_rhs => rw [split, unfenced_append_of_not_mem unmarked, unfenced_append_white white',
    strip_append_white white white']
  rfl

/-! ## The three attempts -/

section Attempts

variable {limits : Limits} {front text back : List Char} {items : List (List Char × Value)}

/-- The three attempts are made one after the other, until one finds a dictionary. -/
theorem extractJsonDict_eq {rawOutput : List Char} (notBlank : strip rawOutput ≠ []) :
    extractJsonDict limits rawOutput = (loadsDict limits rawOutput).bind fun found =>
      found.elim ((loadsDict limits (strip (unfenced rawOutput))).bind fun found =>
        found.elim (balancedDict limits rawOutput) .ok) .ok := by
  rw [extractJsonDict, if_neg notBlank, wholeDict, cleanedOutput_eq]
  cases loadsDict limits rawOutput with
  | error raised => rfl
  | ok found =>
      cases found with
      | some items => rfl
      | none =>
          by_cases nothing : strip (unfenced rawOutput) = []
          · rw [nothing]
            rfl
          · simp only [Procedure.ok_bind, nothing, ↓reduceIte]
            cases loadsDict limits (strip (unfenced rawOutput)) with
            | error raised => rfl
            | ok found => cases found <;> rfl

/-- The first attempt succeeds where nothing but blanks surrounds the object. -/
theorem loadsDict_embedded (isObject : IsObject text) (first : FirstObject front text back) :
    loadsDict limits (front ++ (text ++ back)) = .ok (some items) ↔
      (Blank front ∧ Blank back) ∧ loads limits text = .ok (.dict items) := by
  rw [loadsDict_eq_some_iff]
  constructor
  · intro decoded
    obtain ⟨blank, written, blank', same, blanks, blanks', isObject', decoded⟩ :=
      exists_isObject_of_loads decoded
    obtain ⟨rfl, rfl, rfl⟩ := same_object first isObject isObject'
      (not_mem_of_white (white_of_blank blanks)) same
    exact ⟨⟨blanks, blanks'⟩, decoded⟩
  · rintro ⟨⟨blanks, blanks'⟩, decoded⟩
    rw [loads_isObject_append isObject blanks blanks', decoded]

theorem mem_unfenced {c : Char} (member : c ∈ unfenced text) : c ∈ text :=
  (replace_sublist _ _).mem ((replace_sublist _ _).mem member)

/-- The marks of an object in a text are taken out part by part. -/
theorem unfenced_embedded (isObject : IsObject text) :
    unfenced (front ++ (text ++ back)) = unfenced front ++ (unfenced text ++ unfenced back) := by
  rw [← (unfences_isObject text isObject).2]
  obtain ⟨depth, inside, rfl, -⟩ := isObject
  rw [List.cons_append, unfenced_append_cons (by decide), ← unfenced_cons (by decide)]

/-- After a text without braces the second attempt succeeds where nothing but white space and
fence marks surrounds the object. -/
theorem loadsDict_unfenced (isObject : IsObject text) (noBrace : '{' ∉ front) :
    loadsDict limits (strip (unfenced (front ++ (text ++ back)))) = .ok (some items) ↔
      (White (unfenced front) ∧ White (unfenced back)) ∧
        loads limits (unfenced text) = .ok (.dict items) := by
  have isObject' := (unfences_isObject text isObject).1
  rw [loadsDict_strip, unfenced_embedded isObject]
  constructor
  · rintro ⟨white, written, white', same, isWhite, isWhite', written', decoded⟩
    have first : FirstObject (unfenced front) (unfenced text) (unfenced back) :=
      firstObject_of_not_mem fun member => noBrace (mem_unfenced member)
    obtain ⟨rfl, rfl, rfl⟩ := same_object first isObject' written' (not_mem_of_white isWhite) same
    exact ⟨⟨isWhite, isWhite'⟩, decoded⟩
  · rintro ⟨⟨isWhite, isWhite'⟩, decoded⟩
    exact ⟨_, _, _, rfl, isWhite, isWhite', isObject', decoded⟩

/-- After a text without braces the last attempt succeeds. -/
theorem balancedDict_of_not_mem (isObject : IsObject text) (noBrace : '{' ∉ front)
    (decoded : loads limits text = .ok (.dict items)) :
    balancedDict limits (front ++ (text ++ back)) = .ok items := by
  have found : findBalancedJsonObject (front ++ (text ++ back)) = some text := by
    rw [findBalancedJsonObject, dropWhile_isObject noBrace isObject, balancedFrom_isObject isObject]
  rw [balancedDict, found]
  simp only [decoded]
  rfl

/-- A brace before the first object makes it fail. -/
theorem balancedDict_of_mem (first : FirstObject front text back) (brace : '{' ∈ front) :
    balancedDict limits (front ++ (text ++ back)) ≠ .ok items := by
  intro result
  have candidate : ∃ found, findBalancedJsonObject (front ++ (text ++ back)) = some found ∧
      loads limits found = .ok (.dict items) := by
    unfold balancedDict at result
    split at result
    next => cases result
    next found balanced =>
      refine ⟨found, balanced, ?_⟩
      obtain ⟨value, decoded, result⟩ := Procedure.bind_eq_ok.mp result
      split at result
      next items' =>
        cases result
        exact decoded
      next => cases result
  obtain ⟨found, balanced, decoded⟩ := candidate
  obtain ⟨skipped, passed, rfl, noBrace⟩ := List.eq_append_cons_of_mem brace
  rw [findBalancedJsonObject, List.append_assoc, List.cons_append,
    dropWhile_brace noBrace] at balanced
  obtain ⟨rest, split⟩ := prefix_of_balancedFrom balanced
  obtain ⟨blank, written, blank', rfl, blanks, -, isObject, -⟩ := exists_isObject_of_loads decoded
  cases blank with
  | nil =>
      refine first skipped ('{' :: passed) written (blank' ++ rest) rfl (List.cons_ne_nil _ _) ?_
        isObject
      rw [List.cons_append, ← split, List.nil_append, List.append_assoc]
  | cons c blank =>
      obtain rfl : c = '{' := (List.cons.inj split).1
      exact absurd (blanks '{' List.mem_cons_self) (by decide)

/-- Whether the object is recovered from the text around it. -/
def Recovers (limits : Limits) (front text back : List Char) : Prop :=
  ∃ items, loads limits text = .ok (.dict items) ∧
    extractJsonDict limits (front ++ (text ++ back)) = .ok items

/-- Nothing but white space and fence marks surrounds the object, which has such marks itself
and loses them. -/
def Unfenced (limits : Limits) (front text back : List Char) : Prop :=
  White (unfenced front) ∧ White (unfenced back) ∧ loads limits (unfenced text) ≠ loads limits text

theorem notBlank_of_isObject (isObject : IsObject text) : strip (front ++ (text ++ back)) ≠ [] := by
  intro nothing
  obtain ⟨depth, inside, rfl, -⟩ := isObject
  exact absurd (strip_eq_nil_iff.mp nothing '{' (by simp)) (by decide)

section Recovery

variable (isObject : IsObject text) (first : FirstObject front text back)
include isObject first

/-- An object with blanks around it is found at once. -/
theorem extractJsonDict_of_blank (alone : Blank front ∧ Blank back)
    (decoded : loads limits text = .ok (.dict items)) :
    extractJsonDict limits (front ++ (text ++ back)) = .ok items := by
  rw [extractJsonDict_eq (notBlank_of_isObject isObject),
    (loadsDict_embedded isObject first).mpr ⟨alone, decoded⟩]
  rfl

/-- What comes after the first attempt. -/
theorem extractJsonDict_embedded (fits : ¬ Overruns limits (front ++ (text ++ back)))
    (apart : ¬ (Blank front ∧ Blank back)) :
    extractJsonDict limits (front ++ (text ++ back)) =
      (loadsDict limits (strip (unfenced (front ++ (text ++ back))))).bind fun found =>
        found.elim (balancedDict limits (front ++ (text ++ back))) .ok := by
  rw [extractJsonDict_eq (notBlank_of_isObject isObject), loadsDict_eq_none fits fun items read =>
    apart ((loadsDict_embedded isObject first).mp read).1]
  rfl

/-- After a text without braces the object is found, unless its own fence marks are deleted. -/
theorem extractJsonDict_of_not_mem (fits : ¬ Overruns limits (front ++ (text ++ back)))
    (apart : ¬ (Blank front ∧ Blank back)) (noBrace : '{' ∉ front)
    (decoded : loads limits text = .ok (.dict items)) :
    extractJsonDict limits (front ++ (text ++ back)) = .ok items ↔
      ¬ Overruns limits (strip (unfenced (front ++ (text ++ back)))) ∧
        ¬ Unfenced limits front text back := by
  rw [extractJsonDict_embedded isObject first fits apart, overruns_iff, Unfenced, decoded]
  cases read : loadsDict limits (strip (unfenced (front ++ (text ++ back)))) with
  | error raised =>
      exact iff_of_false (fun impossible => by cases impossible) fun found => found.1 ⟨raised, rfl⟩
  | ok found =>
      have kept : ¬ ∃ raised, (Except.ok found : Except Exception _) = .error raised := by simp
      simp only [kept, not_false_eq_true, true_and]
      cases found with
      | some items' =>
          obtain ⟨⟨white, white'⟩, changed⟩ := (loadsDict_unfenced isObject noBrace).mp read
          simp [white, white', changed, Except.bind]
      | none =>
          refine iff_of_true (balancedDict_of_not_mem isObject noBrace decoded) ?_
          rintro ⟨white, white', -⟩
          have isObject' := (unfences_isObject text isObject).1
          obtain ⟨nonempty, stripped⟩ := isObject_stripped isObject'
          rw [unfenced_embedded isObject, strip_of_white white white' nonempty stripped] at read
          exact loadsDict_isObject isObject' read

/-- After a brace the object is found where the text without its fence marks happens to denote the
same one. -/
theorem extractJsonDict_of_mem (fits : ¬ Overruns limits (front ++ (text ++ back)))
    (apart : ¬ (Blank front ∧ Blank back)) (brace : '{' ∈ front)
    (decoded : loads limits text = .ok (.dict items)) :
    extractJsonDict limits (front ++ (text ++ back)) = .ok items ↔
      loads limits (strip (unfenced (front ++ (text ++ back)))) = loads limits text := by
  rw [extractJsonDict_embedded isObject first fits apart, decoded, ← loadsDict_eq_some_iff]
  cases loadsDict limits (strip (unfenced (front ++ (text ++ back)))) with
  | error raised =>
      exact iff_of_false (fun impossible => by cases impossible) fun impossible => by
        cases impossible
  | ok found =>
      cases found with
      | some items' => simp [Except.bind]
      | none => exact iff_of_false (balancedDict_of_mem first brace) (by simp)

/-- The object is recovered where it stands alone, or no brace comes before it and its own fence
marks are safe; or else the text without its fence marks happens to denote the same object. The
decoder must not overrun a limit on the object, nor on the texts it is given before. -/
theorem recovers_iff : Recovers limits front text back ↔
    ¬ Overruns limits text ∧
      (Blank front ∧ Blank back ∨ ¬ Overruns limits (front ++ (text ++ back)) ∧
        ('{' ∉ front ∧ ¬ Overruns limits (strip (unfenced (front ++ (text ++ back)))) ∧
            ¬ Unfenced limits front text back ∨
          '{' ∈ front ∧
            loads limits (strip (unfenced (front ++ (text ++ back)))) = loads limits text)) := by
  by_cases overruns : Overruns limits text
  · refine iff_of_false ?_ fun fits => fits.1 overruns
    rintro ⟨items, decoded, -⟩
    obtain ⟨raised, failed, -⟩ := overruns
    rw [decoded] at failed
    cases failed
  obtain ⟨items, decoded⟩ := exists_loads_of_not_overruns isObject overruns
  have recovers : Recovers limits front text back ↔
      extractJsonDict limits (front ++ (text ++ back)) = .ok items := by
    simp only [Recovers, decoded, Except.ok.injEq, Value.dict.injEq, exists_eq_left']
  rw [recovers, and_iff_right overruns]
  by_cases alone : Blank front ∧ Blank back
  · exact iff_of_true (extractJsonDict_of_blank isObject first alone decoded) (Or.inl alone)
  rw [or_iff_right alone]
  by_cases fits : Overruns limits (front ++ (text ++ back))
  · refine iff_of_false ?_ fun found => found.1 fits
    obtain ⟨raised, failed⟩ := overruns_iff.mp fits
    rw [extractJsonDict_eq (notBlank_of_isObject isObject), failed]
    exact fun impossible => by cases impossible
  rw [and_iff_right fits]
  by_cases brace : '{' ∈ front
  · rw [extractJsonDict_of_mem isObject first fits alone brace decoded]
    simp only [brace, not_true_eq_false, false_and, true_and, false_or]
  · rw [extractJsonDict_of_not_mem isObject first fits alone brace decoded]
    simp only [brace, not_false_eq_true, true_and, false_and, or_false]

end Recovery

end Attempts

/-- The limits of an interpreter with the default settings, forty calls deep. -/
def sampleLimits : Limits := ⟨some 4300, some 960⟩

/-- An object of one field -/
def sampleObject : List Char := "\x7b\"amount\": 990\x7d".toList

theorem isObject_sampleObject : IsObject sampleObject :=
  @isObject_of_scanOnce_nil .unlimited 15 _ _ rfl

theorem recovers_fenced :
    Recovers sampleLimits "Result:\n```json\n".toList sampleObject "\n```".toList := by
  have noBrace : '{' ∉ "Result:\n```json\n".toList := by decide
  refine (recovers_iff isObject_sampleObject (firstObject_of_not_mem noBrace)).mpr
    ⟨?_, Or.inr ⟨?_, Or.inl ⟨noBrace, ?_, ?_⟩⟩⟩
  · rintro ⟨raised, failed, -⟩
    cases failed
  · rintro ⟨raised, failed, other⟩
    cases failed
    exact other rfl
  · rintro ⟨raised, failed, other⟩
    cases failed
    exact other rfl
  · rintro ⟨white, -⟩
    exact absurd (white 'R' (by decide)) (by decide)

/-- Braces in the prose before an object hide it. -/
theorem not_recovers : IsObject sampleObject ∧
    FirstObject "Note \x7bdraft\x7d: ".toList sampleObject [] ∧
      ¬ Recovers sampleLimits "Note \x7bdraft\x7d: ".toList sampleObject [] := by
  refine ⟨isObject_sampleObject, ?_, ?_⟩
  · have fails : ∀ passed ∈ "Note \x7bdraft\x7d: ".toList.tails, passed ≠ [] →
        (scanOnce .unlimited 30 (passed ++ sampleObject)).map (fun _ => ()) =
          .error .jsonDecodeError := by
      decide
    intro skipped passed written rest split nonempty same isObject
    have member : passed ∈ "Note \x7bdraft\x7d: ".toList.tails := by
      rw [List.mem_tails, split]
      exact List.suffix_append skipped passed
    obtain ⟨outcome, known, -, scanned⟩ := isObject.exists_loads .unlimited
    have failed := fails passed member nonempty
    rw [List.append_nil] at same
    rw [same, scanned 30 rest] at failed
    · exact map_ne_jsonDecodeError (map_ne_jsonDecodeError known) failed
    · have shorter : passed.length ≤ 14 := ((List.mem_tails _ _).mp member).length_le
      have length : sampleObject.length = 15 := rfl
      rw [← same, List.length_append, length]
      omega
  · rintro ⟨items, -, result⟩
    have fails : extractJsonDict sampleLimits
        ("Note \x7bdraft\x7d: ".toList ++ (sampleObject ++ [])) = .error .jsonDecodeError := rfl
    rw [fails] at result
    cases result

end BirrTrack.OcrService
