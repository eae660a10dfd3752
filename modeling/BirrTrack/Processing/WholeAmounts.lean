import BirrTrack.Processing.Numerals

/-! # Amounts that are whole numbers of the text

The pattern for amounts has no anchors, so the captured numeral may be a fragment of a
longer number, and the currency before a numeral does not decide which one is captured.
-/

namespace BirrTrack.Processing

open Js Backtracking Pattern

/-! ## Fragments of numbers -/

/-- At the end of a text stands a digit, or a digit and a point or comma. -/
def EndsInNumber (front : List Char) : Prop :=
  (∃ others c, front = others ++ [c] ∧ c.isDigit = true) ∨
    ∃ others c mark, front = others ++ [c, mark] ∧ c.isDigit = true ∧ (mark = '.' ∨ mark = ',')

/-- At the beginning of a text stands a digit, or a point or comma and a digit. -/
def BeginsInNumber (rest : List Char) : Prop :=
  (∃ c others, rest = c :: others ∧ c.isDigit = true) ∨
    ∃ mark c others, rest = mark :: c :: others ∧ (mark = '.' ∨ mark = ',') ∧ c.isDigit = true

/-- A capture is not a fragment of a longer number of the text. -/
def IsWholeNumber (text : List Char) (capture : Capture) : Prop :=
  ∃ rest, text = capture.before.reverse ++ (capture.text ++ rest) ∧
    ¬ EndsInNumber capture.before.reverse ∧ ¬ BeginsInNumber rest

/-- An amount that is found is a whole number of the text. -/
def AmountIsWhole (text : List Char) : Prop :=
  ∀ amount, (parseWithRegex Number.ofRat text).amount = some amount →
    ∃ capture, amountPlace text = some capture ∧
      Number.ofText Number.ofRat (capture.text.filter (· ≠ ',')) = some amount ∧
        IsWholeNumber text capture

/-- The number around a point is printed as an amount. -/
def PrintsAmount (before after : List Char) : Prop :=
  ∃ front whole digits rest, before = front ++ whole ∧ after = digits ++ rest ∧ IsWhole whole ∧
    IsDecimals digits ∧ ¬ EndsInNumber front ∧ ¬ BeginsInNumber rest

/-- An amount around a point is larger than all Numbers. -/
def PrintsInfinity (before after : List Char) : Prop :=
  ∃ front whole digits rest, before = front ++ whole ∧ after = digits ++ rest ∧ IsWhole whole ∧
    IsDecimals digits ∧ Number.ofRat ((hundredthsOf whole digits : ℚ) / 100) = none

/-- A comma of a numeral follows a digit. -/
theorem IsWhole.before_comma {whole front rest : List Char} (isWhole : IsWhole whole)
    (split : whole = front ++ ',' :: rest) :
    ∃ others c, front = others ++ [c] ∧ c.isDigit = true := by
  have digitsOnly : ∀ {digits : List Char}, (∀ c ∈ digits, c.isDigit = true) → ',' ∉ digits :=
    fun all comma => absurd (all ',' comma) (by decide)
  cases isWhole with
  | plain some all => exact absurd (by rw [split]; simp) (digitsOnly all)
  | @grouped lead commaGroups some short all three =>
      induction commaGroups using List.reverseRecOn generalizing rest with
      | nil =>
          rw [List.flatMap_nil, List.append_nil] at split
          exact absurd (by rw [split]; simp) (digitsOnly all)
      | append_singleton commaGroups digits ih =>
          have earlier : ∀ group ∈ commaGroups,
              group.length = 3 ∧ ∀ c ∈ group, c.isDigit = true :=
            fun group member => three group (List.mem_append_left _ member)
          have last := (IsWhole.grouped some short all earlier).last
          rw [List.flatMap_append, List.flatMap_singleton, ← List.append_assoc] at split
          generalize lead ++ commaGroups.flatMap (',' :: ·) = word at split last ih
          rcases lt_trichotomy front.length word.length with inside | same | after
          · obtain ⟨between, word_eq, tails⟩ := exists_between split.symm inside.le
            obtain ⟨c, between, rfl⟩ : ∃ c others, between = c :: others := by
              refine List.exists_cons_of_length_pos ?_
              rw [word_eq, List.length_append] at inside
              omega
            obtain ⟨rfl, -⟩ := List.cons.inj tails
            exact ih earlier word_eq
          · obtain ⟨rfl, -⟩ := List.append_inj split same.symm
            exact last
          · obtain ⟨between, front_eq, tails⟩ := exists_between split after.le
            obtain ⟨c, between, rfl⟩ : ∃ c others, between = c :: others := by
              refine List.exists_cons_of_length_pos ?_
              rw [front_eq, List.length_append] at after
              omega
            have comma : ',' ∈ digits := by
              rw [(List.cons.inj tails).2]
              simp
            exact absurd comma (digitsOnly (three digits (by simp)).2)

/-- What continues a numeral to the left is part of a number. -/
theorem endsInNumber_of_whole {front more whole : List Char} (isWhole : IsWhole (more ++ whole))
    (some : more ≠ []) : EndsInNumber (front ++ more) := by
  obtain ⟨others, c, rfl⟩ : ∃ others c, more = others ++ [c] :=
    ⟨more.dropLast, more.getLast some, (List.dropLast_append_getLast some).symm⟩
  rcases isWhole.all c (by simp) with isDigit | rfl
  · exact Or.inl ⟨front ++ others, c, (List.append_assoc _ _ _).symm, isDigit⟩
  · rw [List.append_assoc] at isWhole
    obtain ⟨others, c, rfl, isDigit⟩ := isWhole.before_comma rfl
    refine Or.inr ⟨front ++ others, c, ',', ?_, isDigit, Or.inr rfl⟩
    simp only [List.append_assoc, List.singleton_append]

/-- The numeral that is read begins no later than any around the same point, and has no
fewer decimals. -/
theorem ReadsNumeral.encloses {text before whole digits rest : List Char}
    (reads : ReadsNumeral text before whole digits rest) {front whole' digits' rest' : List Char}
    (left : before ++ whole = front ++ whole') (right : digits ++ rest = digits' ++ rest')
    (isWhole : IsWhole whole') (isDecimals : IsDecimals digits') :
    ∃ more more', whole = more ++ whole' ∧ front = before ++ more ∧ digits = digits' ++ more' ∧
      rest' = more' ++ rest := by
  have begins : before.length ≤ front.length := by
    by_contra sooner
    refine reads.earliest front (numeralText whole' digits' ++ rest') ?_ (not_le.mp sooner)
      ⟨whole', digits', rest', rfl, isWhole, isDecimals⟩
    rw [reads.firstPoint.split, left, right, numeralText_append, List.append_assoc]
  obtain ⟨more, rfl, whole_eq⟩ := exists_between left begins
  obtain ⟨more', digits_eq, rest_eq⟩ :=
    exists_between right.symm (decimals_le right.symm isDecimals reads.greedy)
  exact ⟨more, more', whole_eq, rfl, digits_eq, rest_eq⟩

/-- A number around the point that is printed as an amount is read whole. -/
theorem ReadsNumeral.ends_of_prints {text before whole digits rest : List Char}
    (reads : ReadsNumeral text before whole digits rest)
    (prints : PrintsAmount (before ++ whole) (digits ++ rest)) :
    ¬ EndsInNumber before ∧ ¬ BeginsInNumber rest := by
  obtain ⟨front, whole', digits', rest', left, right, isWhole, isDecimals, noEnd, noBeginning⟩ :=
    prints
  obtain ⟨more, more', rfl, rfl, rfl, rfl⟩ := reads.encloses left right isWhole isDecimals
  have nothing : more = [] := by
    by_contra some
    exact noEnd (endsInNumber_of_whole reads.isWhole some)
  have nothing' : more' = [] := by
    cases more' with
    | nil => rfl
    | cons c others =>
        have isDigit := reads.isDecimals.all c (by simp)
        exact absurd (Or.inl ⟨c, others ++ rest, rfl, isDigit⟩) noBeginning
  rw [nothing, List.append_nil] at noEnd
  rw [nothing', List.nil_append] at noBeginning
  exact ⟨noEnd, noBeginning⟩

/-- What is read around the point is at least as large as any amount there. -/
theorem ReadsNumeral.infinite_of_prints {text before whole digits rest : List Char}
    (reads : ReadsNumeral text before whole digits rest)
    (prints : PrintsInfinity (before ++ whole) (digits ++ rest)) :
    Number.ofRat ((hundredthsOf whole digits : ℚ) / 100) = none := by
  obtain ⟨front, whole', digits', rest', left, right, isWhole, isDecimals, infinite⟩ := prints
  obtain ⟨more, more', rfl, rfl, rfl, rfl⟩ := reads.encloses left right isWhole isDecimals
  have le : (hundredthsOf whole' digits' : ℚ) / 100 ≤
      (hundredthsOf (more ++ whole') (digits' ++ more') : ℚ) / 100 := by
    have hundredths := @hundredthsOf_le more whole' digits' more' reads.isDecimals.short
    have cast : (hundredthsOf whole' digits' : ℚ) ≤
        hundredthsOf (more ++ whole') (digits' ++ more') := by exact_mod_cast hundredths
    exact div_le_div_of_nonneg_right cast (by norm_num)
  by_contra finite
  obtain ⟨amount, found⟩ := Option.ne_none_iff_exists'.mp finite
  obtain ⟨smaller, found', -⟩ := Number.ofRat_mono (by positivity) le found
  rw [infinite] at found'
  cases found'

/-- The amount is a whole number of the text exactly when the number around the first
point between digits is printed as an amount, or no Number holds it. -/
theorem amountIsWhole_iff (text : List Char) :
    AmountIsWhole text ↔ ∀ before after, FirstPoint text before after →
      PrintsAmount before after ∨ PrintsInfinity before after := by
  refine ⟨?_, ?_⟩
  · intro sound before after point
    obtain ⟨front, whole, digits, rest, reads⟩ := point.exists_reads
    obtain ⟨rfl, rfl⟩ := point.unique reads.firstPoint
    have captured := amountPlace_eq_some_iff.mpr ⟨_, _, _, _, reads, rfl⟩
    cases found : Number.ofRat ((hundredthsOf whole digits : ℚ) / 100) with
    | none => exact Or.inr ⟨front, whole, digits, rest, rfl, rfl, reads.isWhole,
        reads.isDecimals, found⟩
    | some amount =>
        left
        obtain ⟨capture, same, -, rest', split, noEnd, noBeginning⟩ :=
          sound amount ((reads.amount_eq _).trans found)
        obtain rfl := Option.some.inj (captured.symm.trans same)
        rw [List.reverse_reverse] at split noEnd
        have rest_eq : rest = rest' :=
          List.append_cancel_left (List.append_cancel_left (reads.split.symm.trans split))
        exact ⟨front, whole, digits, rest, rfl, rfl, reads.isWhole, reads.isDecimals, noEnd,
          rest_eq ▸ noBeginning⟩
  · intro printed amount found
    obtain ⟨before, whole, digits, rest, reads⟩ := exists_reads_of_amount found
    have captured := amountPlace_eq_some_iff.mpr ⟨_, _, _, _, reads, rfl⟩
    refine ⟨_, captured, ?_, rest, by rw [List.reverse_reverse]; exact reads.split, ?_⟩
    · rw [Number.ofText, literal_numeralText reads.isWhole reads.isDecimals, ← found,
        reads.amount_eq]
      rfl
    · rw [List.reverse_reverse]
      rw [reads.amount_eq] at found
      rcases printed _ _ reads.firstPoint with prints | prints
      · exact reads.ends_of_prints prints
      · rw [reads.infinite_of_prints prints] at found
        cases found

def datedText : List Char := "Date 12.05.2026".toList

theorem not_amountIsWhole_datedText : ¬ ∀ text, AmountIsWhole text := by
  intro sound
  have captured : amountPlace datedText = some ⟨"Date ".toList.reverse, "12.05".toList⟩ := by
    decide +kernel
  obtain ⟨amount, found⟩ : ∃ amount, (parseWithRegex Number.ofRat datedText).amount = some amount :=
    Option.isSome_iff_exists.mp (by decide +kernel)
  obtain ⟨capture, same, -, rest, split, -, noBeginning⟩ := sound datedText amount found
  obtain rfl := Option.some.inj (captured.symm.trans same)
  have rest_eq : ".2026".toList = rest :=
    @List.append_cancel_left _ "Date 12.05".toList ".2026".toList rest split
  exact noBeginning (Or.inr ⟨'.', '2', "026".toList, rest_eq.symm, Or.inl rfl, rfl⟩)

/-! ## Numerals with a currency -/

/-- `ETB`, `Birr` or `Br` in any case. -/
def IsMarker (letters : List Char) : Prop :=
  letters.map Char.toLower ∈ ["etb", "birr", "br"].map String.toList

instance (letters : List Char) : Decidable (IsMarker letters) :=
  inferInstanceAs (Decidable (_ ∈ _))

/-- A numeral with a currency before it. -/
structure MarkedNumeral (text before marker blanks whole digits rest : List Char) : Prop where
  isMarker : IsMarker marker
  blank : ∀ c ∈ blanks, isSpace c = true
  numeral : NumeralAt text (before ++ (marker ++ blanks)) whole digits rest

/-- The first numeral of a text with a currency before it. -/
structure FirstMarked (text before marker blanks whole digits rest : List Char) : Prop extends
    MarkedNumeral text before marker blanks whole digits rest where
  earliest : ∀ before' marker' blanks' whole' digits' rest',
    MarkedNumeral text before' marker' blanks' whole' digits' rest' →
      before.length ≤ before'.length

/-- The Number that a numeral denotes, unless it is an infinity. -/
def numeralNumber (whole digits : List Char) : Option Number :=
  Number.ofText Number.ofRat ((numeralText whole digits).filter (· ≠ ','))

/-- The amount that is found is the one that a numeral denotes. -/
def AmountFound (text whole digits : List Char) : Prop :=
  ∃ amount, numeralNumber whole digits = some amount ∧
    (parseWithRegex Number.ofRat text).amount = some amount

theorem IsMarker.isDigit_eq_false {letters : List Char} (isMarker : IsMarker letters) :
    ∀ c ∈ letters, c.isDigit = false := by
  have noDigits : ∀ word ∈ ["etb", "birr", "br"].map String.toList, ∀ c ∈ word,
      c.isDigit = false := by
    decide
  intro c member
  by_contra isDigit
  rw [Bool.not_eq_false] at isDigit
  have listed : c.toLower ∈ letters.map Char.toLower := List.mem_map_of_mem member
  rw [toLower_of_isDigit isDigit] at listed
  rw [noDigits _ isMarker c listed] at isDigit
  cases isDigit

theorem ReadsNumeral.amount_eq_number {text before whole digits rest : List Char}
    (reads : ReadsNumeral text before whole digits rest) :
    (parseWithRegex Number.ofRat text).amount = numeralNumber whole digits := by
  rw [reads.amount_eq, numeralNumber, Number.ofText,
    literal_numeralText reads.isWhole reads.isDecimals]
  rfl

/-- No numeral begins in a currency or in the blanks after it. -/
theorem MarkedNumeral.reads {text before marker blanks whole digits rest before' whole' digits'
    rest' : List Char} (marked : MarkedNumeral text before marker blanks whole digits rest)
    (reads : ReadsNumeral text before' whole' digits' rest')
    (inside : before.length ≤ before'.length) : whole' = whole ∧ digits' = digits := by
  have latest : before'.length ≤ (before ++ (marker ++ blanks)).length := by
    by_contra later
    exact reads.earliest _ _ marked.numeral.split (not_le.mp later) marked.numeral.begins
  have same := reads.split.symm.trans marked.numeral.split
  obtain ⟨passed, place, tails⟩ := exists_between same latest
  cases passed with
  | nil =>
      rw [List.append_nil] at place
      have numeral := marked.numeral
      rw [place] at numeral
      obtain ⟨rfl, rfl, -⟩ := reads.toNumeralAt.unique numeral
      exact ⟨rfl, rfl⟩
  | cons c passed =>
      obtain ⟨front, -, marker_eq⟩ := exists_between place inside
      have member : c ∈ marker ++ blanks := by
        rw [marker_eq]
        simp
      have noDigit : c.isDigit = false := by
        rcases List.mem_append.mp member with member | member
        · exact marked.isMarker.isDigit_eq_false c member
        · exact isDigit_of_isSpace (marked.blank c member)
      obtain ⟨d, others, begun, isDigit⟩ := reads.begins.head
      rw [tails] at begun
      obtain ⟨rfl, -⟩ := List.cons.inj begun
      rw [noDigit] at isDigit
      cases isDigit

/-- The first numeral with a currency is the amount exactly when it denotes a Number and
no numeral begins before its currency, unless the first of these denotes the same Number. -/
theorem amountFound_iff {text before marker blanks whole digits rest : List Char}
    (marked : FirstMarked text before marker blanks whole digits rest) :
    AmountFound text whole digits ↔ numeralNumber whole digits ≠ none ∧
      ∀ before' whole' digits' rest', ReadsNumeral text before' whole' digits' rest' →
        before'.length < before.length →
          numeralNumber whole' digits' = numeralNumber whole digits := by
  refine ⟨?_, ?_⟩
  · intro found
    obtain ⟨amount, denoted, found⟩ := found
    refine ⟨by rw [denoted]; exact Option.some_ne_none amount, ?_⟩
    intro before' whole' digits' rest' reads _
    rw [← reads.amount_eq_number, found, denoted]
  · intro conditions
    obtain ⟨finite, same⟩ := conditions
    obtain ⟨amount, denoted⟩ := Option.ne_none_iff_exists'.mp finite
    refine ⟨amount, denoted, ?_⟩
    obtain ⟨before', whole', digits', rest', reads⟩ :=
      @ReadsNumeral.exists_of_begins (before ++ (marker ++ blanks)) _ marked.numeral.begins
    rw [← marked.numeral.split] at reads
    rw [reads.amount_eq_number, ← denoted]
    by_cases sooner : before'.length < before.length
    · exact same before' whole' digits' rest' reads sooner
    · obtain ⟨rfl, rfl⟩ := marked.toMarkedNumeral.reads reads (not_lt.mp sooner)
      rfl

/-- A currency begins with one of two letters. -/
theorem IsMarker.head {letters : List Char} (isMarker : IsMarker letters) :
    ∃ c others, letters = c :: others ∧ (c.toLower = 'e' ∨ c.toLower = 'b') := by
  have heads : ∀ word ∈ ["etb", "birr", "br"].map String.toList,
      word.head? = some 'e' ∨ word.head? = some 'b' := by
    decide
  cases letters with
  | nil => exact absurd (heads [] isMarker) (by decide)
  | cons c others =>
      refine ⟨c, others, rfl, ?_⟩
      have first := heads _ isMarker
      rwa [List.map_cons, List.head?_cons, Option.some_inj, Option.some_inj] at first

/-- Where no letter can begin a currency, there is no earlier one. -/
theorem MarkedNumeral.length_le {text before rest before' marker' blanks' whole' digits' rest' :
    List Char} (marked : MarkedNumeral text before' marker' blanks' whole' digits' rest')
    (split : text = before ++ rest) (none : ∀ c ∈ before, c.toLower ≠ 'e' ∧ c.toLower ≠ 'b') :
    before.length ≤ before'.length := by
  by_contra sooner
  rw [not_le] at sooner
  obtain ⟨c, others, rfl, letter⟩ := marked.isMarker.head
  have same := marked.numeral.split.symm.trans split
  rw [List.append_assoc] at same
  obtain ⟨more, rfl, tails⟩ := exists_between same sooner.le
  cases more with
  | nil =>
      rw [List.append_nil] at sooner
      exact absurd sooner (lt_irrefl _)
  | cons d more =>
      obtain ⟨rfl, -⟩ := List.cons.inj tails
      have letters := none c (List.mem_append_right _ List.mem_cons_self)
      exact letter.elim letters.1 letters.2

def feeText : List Char := "ETB 100.00 Fee 1.50".toList

theorem firstMarked_feeText : FirstMarked feeText [] "ETB".toList " ".toList "100".toList
    "00".toList " Fee 1.50".toList where
  isMarker := by decide
  blank := by decide
  numeral := by
    refine ⟨rfl, .plain ?_ ?_, ⟨?_, ?_, ?_⟩, Or.inl rfl⟩
    all_goals decide
  earliest := fun _ _ _ _ _ _ _ => Nat.zero_le _

theorem amountFound_feeText : AmountFound feeText "100".toList "00".toList :=
  (amountFound_iff firstMarked_feeText).mpr
    ⟨by decide +kernel, fun _ _ _ _ _ sooner => absurd sooner (Nat.not_lt_zero _)⟩

def datedFeeText : List Char := "12.05.2026 ETB 100.00".toList

theorem firstMarked_datedFeeText : FirstMarked datedFeeText "12.05.2026 ".toList "ETB".toList
    " ".toList "100".toList "00".toList [] where
  isMarker := by decide
  blank := by decide
  numeral := by
    refine ⟨rfl, .plain ?_ ?_, ⟨?_, ?_, ?_⟩, Or.inl rfl⟩
    all_goals decide
  earliest := by
    intro before' marker' blanks' whole' digits' rest' marked
    exact @MarkedNumeral.length_le datedFeeText _ "ETB 100.00".toList _ _ _ _ _ _ marked rfl
      (by decide)

theorem not_amountFound_datedFeeText :
    ¬ ∀ text before marker blanks whole digits rest,
      FirstMarked text before marker blanks whole digits rest → AmountFound text whole digits := by
  intro wins
  obtain ⟨amount, denoted, found⟩ := wins _ _ _ _ _ _ _ firstMarked_datedFeeText
  have other : (parseWithRegex Number.ofRat datedFeeText).amount =
      numeralNumber "12".toList "05".toList := by decide +kernel
  have same : numeralNumber "12".toList "05".toList = numeralNumber "100".toList "00".toList := by
    rw [← other, found, denoted]
  exact absurd same (by decide +kernel)

end BirrTrack.Processing
