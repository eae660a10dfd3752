import BirrTrack.Processing.LabelledIds

/-! # Which ids are found

An id may be read out of a label: the text of a label that is not followed by a token, or
a second label that stands where the id should, becomes the id. And an id may lose its
first characters to the label before it.
-/

namespace BirrTrack.Processing

open Js Backtracking Pattern

/-! ## Ids that are values -/

/-- The words of which no part may become an id. -/
def wholeWords : List String := ["reference", "transaction"]

/-- A capture starts strictly inside an occurrence of a word. -/
def StartsInside (word : String) (text : List Char) (capture : Capture) : Prop :=
  ∃ front occurrence rest, text = front ++ (occurrence ++ rest) ∧ Spells word occurrence ∧
    front.length < capture.before.length ∧
      capture.before.length < front.length + occurrence.length

/-- A capture is a value and not the text of a label. -/
def IsValue (text : List Char) (capture : Capture) : Prop :=
  ∀ word ∈ wholeWords, ¬ StartsInside word text capture ∧ ¬ Spells word capture.text

/-- An id that is found in a text is a value of the text. -/
def TransactionIdSound (rounding : ℚ → Option Number) (text : List Char) : Prop :=
  ∀ id, (parseWithRegex rounding text).transactionId = some id →
    ∃ capture, transactionIdCapture text = some capture ∧ id = String.ofList capture.text ∧
      IsValue text capture

/-- No text of a label is left for the token: `reference` is read as a whole, and no
label is followed by one of the words on its own. -/
structure LabelsReadWhole (text : List Char) : Prop where
  reference : ∀ letters rest, text = letters ++ rest → Spells "reference" letters →
    HasToken rest
  single : ∀ label separators letters rest, text = label ++ (separators ++ (letters ++ rest)) →
    IsLabel label → (∀ c ∈ separators, isSeparator c = true) →
      (∃ word ∈ wholeWords, Spells word letters) → ∃ c ∈ rest.head?, isIdChar c = true

theorem not_separator_of_wholeWords : ∀ word ∈ wholeWords, ∀ c ∈ word.toList,
    isSeparator c = false := by
  decide

theorem ne_nil_of_wholeWords : ∀ word ∈ wholeWords, word.toList ≠ [] := by decide

/-- Only the label `ref` is the front of one of the words. -/
theorem front_of_wholeWords : ∀ word ∈ wholeWords, ∀ ending ∈ "id" :: labelWords,
    ∀ count ∈ List.range word.toList.length, 0 < count →
      word.toList.take count <:+ ending.toList ∨ ending.toList <:+ word.toList.take count →
        word = "reference" ∧ ending = "ref" ∧ count = 3 := by
  decide

theorem isIdChar_of_wholeWords : ∀ word ∈ wholeWords, ∀ c ∈ word.toList, isIdChar c = true := by
  decide

theorem length_wholeWords : ∀ word ∈ wholeWords, 6 ≤ word.toList.length := by decide

/-- What continues a label is no front of the words. -/
theorem continuations_apart : ∀ word ∈ wholeWords, ∀ other ∈ continuations,
    Apart other.toList word.toList := by
  decide

/-- Where one of the words stands on its own after a label, it is the token. -/
theorem Reads.token_of_word {text label separators token rest label' separators' letters after :
    List Char} {word : String} (reads : Reads text label separators token rest)
    (split : text = label' ++ (separators' ++ (letters ++ after))) (isLabel : IsLabel label')
    (separated : ∀ c ∈ separators', isSeparator c = true) (listed : word ∈ wholeWords)
    (spelt : Spells word letters) (stops : ∀ c ∈ after.head?, isIdChar c = false) :
    token = letters := by
  have isToken := spelt.all_isIdChar (isIdChar_of_wholeWords word listed)
  have long : 6 ≤ letters.length := spelt.length_eq ▸ length_wholeWords word listed
  have letter := not_separator_of_wholeWords word listed
  have some := ne_nil_of_wholeWords word listed
  have other : ReadsToken (separators' ++ (letters ++ after)) separators' letters after := by
    refine ⟨rfl, separated, isToken, long, stops, ?_⟩
    intro more rest' same all longer
    have shorter := length_le_of_stops same.symm all (spelt.head_not_separator letter some)
    omega
  have same := reads.split.symm.trans split
  have shorter : label'.length ≤ label.length := by
    by_contra longer
    exact reads.longestLabel label' _ split isLabel (not_le.mp longer) other.hasToken
  obtain ⟨more, rfl, passed⟩ := exists_between same.symm shorter
  have tails := passed.symm
  rcases IsLabel.extends isLabel reads.isLabel with rfl | ⟨blanks, back, rfl, blank, ends, -⟩
  · have found := reads.reads
    rw [show separators ++ (token ++ rest) = _ from tails] at found
    exact (found.unique other).2.1
  · -- The longer label would end where the word begins.
    obtain ⟨continuation, continues, ending⟩ := ends
    obtain ⟨nonempty, endLetter⟩ := continuation_letters continuation continues
    rw [List.append_assoc] at tails
    have lengths : blanks.length = separators'.length :=
      Nat.le_antisymm
        (length_le_of_stops tails (fun c member => isSeparator_of_isSpace (blank c member))
          (spelt.head_not_separator letter some))
        (length_le_of_stops tails.symm separated (ending.head_not_separator endLetter nonempty))
    obtain ⟨-, ends⟩ := List.append_inj tails lengths
    have begins : Begins word (back ++ (separators ++ (token ++ rest))) :=
      ends ▸ spelt.begins after
    exact absurd (continuations_apart word listed continuation continues)
      ((ending.begins _).not_apart begins)

/-- Every label ends as one of the words for labels does, or with `id`. -/
theorem IsLabel.exists_ending {label : List Char} (isLabel : IsLabel label) :
    ∃ ending ∈ "id" :: labelWords, ∃ front letters, label = front ++ letters ∧
      Spells ending letters ∧ (ending ≠ "id" → front = []) := by
  cases isLabel with
  | word listed spelt =>
      exact ⟨_, List.mem_cons_of_mem _ listed, [], label, rfl, spelt, fun _ => rfl⟩
  | @transactionId front blanks back first blank second =>
      exact ⟨"id", List.mem_cons_self, front ++ blanks, back, (List.append_assoc _ _ _).symm,
        second, fun other => absurd rfl other⟩

theorem separators_eq_nil_of_inside {front before separators : List Char} {letters : List Char}
    (same : front ++ letters = before ++ separators) (some : letters ≠ [])
    (letter : ∀ c ∈ letters, isSeparator c = false)
    (separated : ∀ c ∈ separators, isSeparator c = true) : separators = [] := by
  by_contra nonempty
  have last := congrArg List.getLast? same
  rw [List.getLast?_append_of_ne_nil _ some, List.getLast?_append_of_ne_nil _ nonempty,
    List.getLast?_eq_getLast_of_ne_nil some, List.getLast?_eq_getLast_of_ne_nil nonempty] at last
  have member : separators.getLast nonempty ∈ letters :=
    Option.some.inj last ▸ List.getLast_mem some
  have separator := separated _ (List.getLast_mem nonempty)
  rw [letter _ member] at separator
  cases separator

/-- An id that starts inside a word is what the label `ref` leaves of `reference`. -/
theorem ReadsId.inside {text before label separators token rest : List Char}
    (reads : ReadsId text before label separators token rest) {word : String}
    (listed : word ∈ wholeWords)
    (inside : StartsInside word text ⟨(label ++ separators).reverse ++ before.reverse, token⟩) :
    ∃ letters after, label ++ (separators ++ (token ++ rest)) = letters ++ after ∧
      Spells "reference" letters ∧ ¬ HasToken after := by
  obtain ⟨front, occurrence, after, split, spelt, starts, ends⟩ := inside
  have letter := spelt.not_separator (not_separator_of_wholeWords word listed)
  have same : front ++ (occurrence ++ after) =
      (before ++ (label ++ separators)) ++ (token ++ rest) := by
    rw [← split, reads.place.split]
    simp only [List.append_assoc]
  simp only [List.length_append, List.length_reverse] at starts ends
  obtain ⟨inner, whole, tails⟩ := exists_between same (by
    simp only [List.length_append]
    omega)
  have length := congrArg List.length whole
  simp only [List.length_append] at length
  obtain ⟨more, rfl, remains⟩ := exists_between tails.symm (by omega)
  simp only [List.length_append] at ends
  have some : inner ≠ [] := List.ne_nil_of_length_pos (by omega)
  have none : separators = [] := by
    refine @separators_eq_nil_of_inside front (before ++ label) separators inner ?_ some ?_
      reads.reads.reads.separated
    · rw [← whole, List.append_assoc]
    · exact fun c member => letter c (List.mem_append_left _ member)
  subst none
  rw [List.append_nil] at whole
  obtain ⟨ending, isEnding, labelFront, letters, rfl, endSpelt, only⟩ :=
    reads.reads.isLabel.exists_ending
  have innerSpelt : inner.map Char.toLower = word.toList.take inner.length := by
    rw [← spelt, List.map_append, List.take_left' (List.length_map _)]
  have count : inner.length ∈ List.range word.toList.length := by
    rw [List.mem_range, ← spelt.length_eq, List.length_append]
    omega
  have ended : ending.toList <:+ (front ++ inner).map Char.toLower := by
    rw [← whole, ← List.append_assoc, List.map_append, endSpelt]
    exact List.suffix_append _ _
  have started : word.toList.take inner.length <:+ (front ++ inner).map Char.toLower := by
    rw [List.map_append, innerSpelt]
    exact List.suffix_append _ _
  obtain ⟨rfl, rfl, three⟩ := front_of_wholeWords word listed ending isEnding inner.length count
    (List.length_pos_iff.mpr some) (List.suffix_or_suffix_of_suffix started ended)
  obtain rfl := only (by decide)
  have lengths : letters.length = inner.length := endSpelt.length_eq.trans three.symm
  rw [List.nil_append] at whole
  obtain ⟨rfl, rfl⟩ := List.append_inj' whole lengths
  have split' : [] ++ letters ++ ([] ++ (token ++ rest)) = letters ++ more ++ after := by
    rw [List.nil_append, List.nil_append, remains, List.append_assoc]
  refine ⟨letters ++ more, after, split', spelt, ?_⟩
  refine reads.reads.longestLabel _ after split' (.word (by decide) spelt) ?_
  rw [List.nil_append, List.length_append]
  omega

theorem referenceLabels : ∀ word ∈ labelWords, ¬ Apart word.toList "reference".toList →
    word = "reference" ∨ word = "ref" := by
  decide

/-- Of `reference` without a token after it only the label `ref` is read. -/
theorem ReadsId.startsInside_of_reference {text before label separators token rest : List Char}
    (reads : ReadsId text before label separators token rest) {letters after : List Char}
    (split : label ++ (separators ++ (token ++ rest)) = letters ++ after)
    (spelt : Spells "reference" letters) (none : ¬ HasToken after) :
    StartsInside "reference" text ⟨(label ++ separators).reverse ++ before.reverse, token⟩ := by
  have begins : Begins "reference" (label ++ (separators ++ (token ++ rest))) :=
    split ▸ spelt.begins after
  have nine : letters.length = 9 := spelt.length_eq
  cases reads.reads.isLabel with
  | @word word _ listed labelSpelt =>
      rcases referenceLabels word listed ((labelSpelt.begins _).not_apart begins) with rfl | rfl
      · have lengths : label.length = letters.length := labelSpelt.length_eq.trans nine.symm
        obtain ⟨rfl, rfl⟩ := List.append_inj split lengths
        exact absurd reads.reads.hasToken none
      · have three : label.length = 3 := labelSpelt.length_eq
        obtain ⟨more, rfl, remains⟩ := exists_between split (by omega)
        obtain ⟨-, moreSpelt⟩ := labelSpelt.append_more spelt
        have erence : Spells "erence" more := moreSpelt
        -- The letters that are left are no separators, so the token begins with them.
        have empty : separators.length ≤ ([] : List Char).length := by
          refine @length_le_of_stops _ separators (token ++ rest) [] (more ++ after) remains
            reads.reads.reads.separated ?_
          exact erence.head_not_separator (by decide) (by decide)
        obtain rfl := List.length_eq_zero_iff.mp (Nat.le_zero.mp empty)
        refine ⟨before, label ++ more, after, ?_, spelt, ?_, ?_⟩
        · rw [reads.place.split, split]
        · simp only [List.append_nil, List.length_append, List.length_reverse]
          omega
        · simp only [List.append_nil, List.length_append, List.length_reverse] at nine ⊢
          omega
  | @transactionId front blanks back first blank second =>
      rw [List.append_assoc] at begins
      exact absurd (by decide) ((first.begins _).not_apart begins)

/-- Ids are values of a text exactly when the first label that is followed by a token
leaves no text of a label behind. -/
theorem transactionIdSound_iff (rounding : ℚ → Option Number) (text : List Char) :
    TransactionIdSound rounding text ↔
      ∀ before rest, FirstLabelled text before rest → LabelsReadWhole rest := by
  rw [TransactionIdSound, transactionId_eq]
  refine ⟨?_, ?_⟩
  · intro sound before rest place
    obtain ⟨label, separators, token, after, read⟩ := Reads.exists_of_labelled place.labelled
    obtain rfl := read.split
    have reads : ReadsId text before label separators token after := ⟨place, read⟩
    have captured := transactionIdCapture_eq_some_iff.mpr ⟨_, _, _, _, _, reads, rfl⟩
    obtain ⟨capture, same, -, isValue⟩ := sound (String.ofList token) (by rw [captured]; rfl)
    obtain rfl := Option.some.inj (captured.symm.trans same)
    refine ⟨?_, ?_⟩
    · intro letters rest split spelt
      by_contra none
      exact (isValue "reference" (by decide)).1 (reads.startsInside_of_reference split spelt none)
    · intro label' separators' letters rest split isLabel separated word
      obtain ⟨word, listed, spelt⟩ := word
      by_contra stops
      have whole : token = letters := by
        refine read.token_of_word split isLabel separated listed spelt ?_
        intro c head
        by_contra idChar
        exact stops ⟨c, head, by simpa using idChar⟩
      exact (isValue word listed).2 (whole ▸ spelt)
  · intro readWhole id found
    obtain ⟨capture, captured, rfl⟩ := Option.map_eq_some_iff.mp found
    refine ⟨capture, captured, rfl, ?_⟩
    obtain ⟨before, label, separators, token, rest, reads, rfl⟩ :=
      transactionIdCapture_eq_some_iff.mp captured
    have labels := readWhole before _ reads.place
    intro word listed
    refine ⟨?_, ?_⟩
    · intro inside
      obtain ⟨letters, after, split, spelt, none⟩ := reads.inside listed inside
      exact none (labels.reference letters after split spelt)
    · intro spelt
      obtain ⟨c, head, idChar⟩ := labels.single label separators token rest rfl
        reads.reads.isLabel reads.reads.reads.separated ⟨word, listed, spelt⟩
      rw [reads.reads.reads.stops c head] at idChar
      cases idChar

def referenceText : List Char := "Transaction Reference: ABC123".toList

theorem not_transactionIdSound_referenceText :
    ¬ ∀ text, TransactionIdSound Number.ofRat text := by
  intro sound
  have captured : transactionIdCapture referenceText =
      some ⟨"Transaction ".toList.reverse, "Reference".toList⟩ := by decide +kernel
  obtain ⟨capture, same, -, isValue⟩ := sound referenceText "Reference" (by
    rw [transactionId_eq, captured]
    rfl)
  obtain rfl := Option.some.inj (captured.symm.trans same)
  exact (isValue "reference" (by decide)).2 (by decide)

/-! ## Ids that are found -/

/-- What a text that is to contain a label has to contain. -/
def labelStarts : List String := ["tx", "transaction", "ref"]

/-- A label with its token, and no label before them. -/
structure LabelledId (front label separators token rest : List Char) : Prop where
  unlabelled : ∀ word ∈ labelStarts, ¬ word.toList <:+: front.map Char.toLower
  isLabel : IsLabel label
  some : separators ≠ []
  separated : ∀ c ∈ separators, isSeparator c = true
  isToken : ∀ c ∈ token, isIdChar c = true
  long : 6 ≤ token.length
  starts : ∀ c ∈ token.head?, c.isAlphanum = true
  stops : ∀ c ∈ rest.head?, isIdChar c = false

/-- Exactly the token is found. -/
def TokenFound (rounding : ℚ → Option Number) (front label separators token rest : List Char) :
    Prop :=
  (parseWithRegex rounding (front ++ (label ++ (separators ++ (token ++ rest))))).transactionId =
    some (String.ofList token)

/-- The label takes the letters `id` from the token, and another token is read after it. -/
def LosesId (label separators token rest : List Char) : Prop :=
  Spells "transaction" label ∧ (∀ c ∈ separators, isSpace c = true) ∧
    ∃ letters back separators' token' rest', token = letters ++ back ∧ Spells "id" letters ∧
      ReadsToken (back ++ rest) separators' token' rest' ∧ token' ≠ token

theorem labelStarts_prefix : ∀ word ∈ labelWords, ∃ start ∈ labelStarts,
    start.toList <+: word.toList := by
  decide

/-- No label begins inside the beginning of another. -/
theorem labelStarts_apart : ∀ word ∈ labelStarts, ∀ start ∈ labelStarts,
    ∀ count ∈ List.range word.toList.length, 0 < count →
      Apart (word.toList.drop count) start.toList := by
  decide

theorem IsLabel.exists_start {label : List Char} (isLabel : IsLabel label) (rest : List Char) :
    ∃ start ∈ labelStarts, Begins start (label ++ rest) := by
  cases isLabel with
  | @word word _ listed spelt =>
      obtain ⟨start, starts, before⟩ := labelStarts_prefix word listed
      exact ⟨start, starts, before.trans (spelt.begins rest)⟩
  | transactionId first blank second =>
      refine ⟨"transaction", by decide, ?_⟩
      rw [List.append_assoc]
      exact first.begins _

theorem isSeparator_of_isAlphanum {c : Char} (letter : c.isAlphanum = true) :
    isSeparator c = false := by
  have range := toNat_of_isAlphanum letter
  by_contra separator
  simp only [isSeparator, isSpace, Bool.not_eq_false, decide_eq_true_eq] at separator
  rcases separator with blank | rfl | rfl | rfl
  · omega
  · exact absurd range (by decide)
  · exact absurd range (by decide)
  · exact absurd range (by decide)

theorem LabelledId.head_not_separator {front label separators token rest : List Char}
    (fits : LabelledId front label separators token rest) :
    ∀ c ∈ (token ++ rest).head?, isSeparator c = false := by
  intro c head
  have some : token ≠ [] := List.ne_nil_of_length_pos (Nat.lt_of_lt_of_le (by decide) fits.long)
  rw [List.head?_append_of_ne_nil _ some] at head
  exact isSeparator_of_isAlphanum (fits.starts c head)

theorem LabelledId.readsToken {front label separators token rest : List Char}
    (fits : LabelledId front label separators token rest) :
    ReadsToken (separators ++ (token ++ rest)) separators token rest := by
  refine ⟨rfl, fits.separated, fits.isToken, fits.long, fits.stops, ?_⟩
  intro other after same all longer
  have shorter := length_le_of_stops same.symm all fits.head_not_separator
  omega

theorem LabelledId.firstLabelled {front label separators token rest : List Char}
    (fits : LabelledId front label separators token rest) :
    FirstLabelled (front ++ (label ++ (separators ++ (token ++ rest)))) front
      (label ++ (separators ++ (token ++ rest))) := by
  refine ⟨rfl, ⟨label, _, rfl, fits.isLabel, fits.readsToken.hasToken⟩, ?_⟩
  intro earlier later split shorter labelled
  obtain ⟨other, after, rfl, isLabel, -⟩ := labelled
  obtain ⟨word, listed, begins⟩ := isLabel.exists_start after
  obtain ⟨start, starts, startBegins⟩ :=
    fits.isLabel.exists_start (separators ++ (token ++ rest))
  obtain ⟨between, rfl, tails⟩ := exists_between split.symm shorter.le
  rw [tails, Begins, List.map_append] at begins
  have absent : ¬ word.toList <+: between.map Char.toLower := by
    intro inside
    apply fits.unlabelled word listed
    rw [List.map_append]
    exact inside.isInfix.trans (List.suffix_append _ _).isInfix
  -- The label would have to begin inside the front and go on into the label after it.
  obtain ⟨more, whole⟩ := begins
  rcases List.append_eq_append_iff.mp whole with ⟨inner, whole, -⟩ | ⟨inner, whole, tails⟩
  · exact absent ⟨inner, whole.symm⟩
  · have remains : word.toList.drop between.length = inner := by
      rw [whole, List.drop_left' (List.length_map _)]
    have inside : between.length < word.toList.length := by
      rw [whole, List.length_append, List.length_map]
      by_contra empty
      have none : inner = [] := List.length_eq_zero_iff.mp (by omega)
      rw [none, List.append_nil] at whole
      exact absent (whole ▸ List.prefix_refl _)
    rw [List.length_append] at shorter
    have apart := labelStarts_apart word listed start starts between.length
      (List.mem_range.mpr inside) (by omega)
    rw [remains] at apart
    rcases List.prefix_or_prefix_of_prefix ⟨more, tails.symm⟩ startBegins with before | before
    · exact apart.1 before
    · exact apart.2 before

/-- A label that is followed by separators is read as it is, or the label is `transaction`
and the token begins with `id`. -/
theorem LabelledId.read_label {front label separators token rest : List Char}
    (fits : LabelledId front label separators token rest)
    {label' separators' token' rest' : List Char}
    (reads : Reads (label ++ (separators ++ (token ++ rest))) label' separators' token' rest') :
    label' = label ∨ ∃ letters back, token = letters ++ back ∧ Spells "id" letters ∧
      Spells "transaction" label ∧ (∀ c ∈ separators, isSpace c = true) ∧
        ReadsToken (back ++ rest) separators' token' rest' := by
  have same := reads.split
  have shorter : label.length ≤ label'.length := by
    by_contra longer
    exact reads.longestLabel label _ rfl fits.isLabel (not_le.mp longer) fits.readsToken.hasToken
  obtain ⟨more, rfl, tails⟩ := exists_between same shorter
  rcases fits.isLabel.extends reads.isLabel with rfl | ⟨blanks, back, rfl, blank, ends, only⟩
  · exact Or.inl (List.append_nil _)
  · right
    obtain ⟨continuation, continues, ending⟩ := ends
    obtain ⟨nonempty, endLetter⟩ := continuation_letters continuation continues
    rw [List.append_assoc] at tails
    have lengths : separators.length = blanks.length :=
      Nat.le_antisymm
        (length_le_of_stops tails fits.separated (ending.head_not_separator endLetter nonempty))
        (length_le_of_stops tails.symm (fun c member => isSeparator_of_isSpace (blank c member))
          fits.head_not_separator)
    obtain ⟨rfl, ended⟩ := List.append_inj tails lengths
    obtain ⟨transaction, id⟩ := only fits.some
    have two := id.length_id
    have long := fits.long
    obtain ⟨after, rfl, remains⟩ := exists_between ended.symm (by omega)
    refine ⟨back, after, rfl, id, transaction, blank, ?_⟩
    rw [← remains]
    exact reads.reads

/-- The token after a label is found as it is exactly unless the label takes its first
letters. -/
theorem tokenFound_iff (rounding : ℚ → Option Number) {front label separators token rest :
    List Char} (fits : LabelledId front label separators token rest) :
    TokenFound rounding front label separators token rest ↔
      ¬ LosesId label separators token rest := by
  have place := fits.firstLabelled
  obtain ⟨label', separators', token', rest', read⟩ := Reads.exists_of_labelled place.labelled
  have reads : ReadsId (front ++ (label ++ (separators ++ (token ++ rest)))) front label'
      separators' token' rest' := ⟨read.split ▸ place, read.split ▸ read⟩
  rw [TokenFound, reads.finds_iff]
  refine ⟨?_, ?_⟩
  · intro found loses
    obtain ⟨transaction, blank, letters, back, separators₂, token₂, rest₂, rfl, id, other,
      differs⟩ := loses
    rcases fits.read_label read with rfl | ⟨letters', back', same, id', -, -, other'⟩
    · refine read.longestLabel (label' ++ (separators ++ letters)) (back ++ rest) ?_
        (.transactionId transaction blank id) ?_ other.hasToken
      · simp only [List.append_assoc]
      · rw [List.length_append, List.length_append, id.length_id]
        omega
    · obtain ⟨rfl, rfl⟩ := List.append_inj same (id.length_id.trans id'.length_id.symm)
      exact differs ((other.unique other').2.1.trans found)
  · intro keeps
    by_contra differs
    rcases fits.read_label read with rfl | ⟨letters, back, split, id, transaction, blank, other⟩
    · obtain ⟨-, tails⟩ := List.append_inj read.split rfl
      have found := fits.readsToken
      rw [tails] at found
      exact differs (read.reads.unique found).2.1
    · exact keeps ⟨transaction, blank, letters, back, separators', token', rest', split, id, other,
        differs⟩

theorem labelledId_reference : LabelledId "Paid. ".toList "Reference".toList ": ".toList
    "FT24-0015".toList " CBE".toList := by
  constructor
  case isLabel => exact .word (by decide : "reference" ∈ labelWords) (by decide)
  all_goals decide

theorem tokenFound_reference : TokenFound Number.ofRat "Paid. ".toList "Reference".toList
    ": ".toList "FT24-0015".toList " CBE".toList :=
  (tokenFound_iff Number.ofRat labelledId_reference).mpr fun loses =>
    absurd loses.1 (by decide)

theorem labelledId_transaction :
    LabelledId [] "Transaction".toList " ".toList "ID1234567".toList [] := by
  constructor
  case isLabel => exact .word (by decide : "transaction" ∈ labelWords) (by decide)
  all_goals decide

theorem not_tokenFound_transaction :
    ¬ ∀ front label separators token rest, LabelledId front label separators token rest →
      TokenFound Number.ofRat front label separators token rest := by
  intro found
  have whole := found _ _ _ _ _ labelledId_transaction
  have captured : transactionIdCapture "Transaction ID1234567".toList =
      some ⟨"Transaction ID".toList.reverse, "1234567".toList⟩ := by decide +kernel
  rw [TokenFound, transactionId_eq] at whole
  have other : (some (String.ofList "1234567".toList)) = some (String.ofList "ID1234567".toList) :=
    (congrArg _ captured).symm.trans whole
  rw [Option.some_inj, String.ofList_inj] at other
  exact absurd other (by decide)

end BirrTrack.Processing
