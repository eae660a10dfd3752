import BirrTrack.Foundation.Language
import BirrTrack.Processing.Amount

/-! # Numerals

How the pattern for amounts reads a text: at the first place where a numeral begins,
whatever stands before it, it takes the numeral with as many decimals as there are, at
most two. Such a place is always before the first point between two digits.
-/

namespace BirrTrack.Processing

open Js Backtracking Pattern

/-! ## The grammar -/

/-- What stands before the point of a numeral. -/
inductive IsWhole : List Char → Prop where
  | plain {digits : List Char} (some : digits ≠ []) (all : ∀ c ∈ digits, c.isDigit = true) :
      IsWhole digits
  | grouped {lead : List Char} {commaGroups : List (List Char)} (some : lead ≠ [])
      (short : lead.length ≤ 3) (all : ∀ c ∈ lead, c.isDigit = true)
      (three : ∀ digits ∈ commaGroups, digits.length = 3 ∧ ∀ c ∈ digits, c.isDigit = true) :
      IsWhole (lead ++ commaGroups.flatMap (',' :: ·))

/-- What stands behind the point. -/
structure IsDecimals (digits : List Char) : Prop where
  some : 1 ≤ digits.length
  short : digits.length ≤ 2
  all : ∀ c ∈ digits, c.isDigit = true

/-- A numeral as it is printed. -/
def numeralText (whole decimals : List Char) : List Char := whole ++ '.' :: decimals

/-- A text begins with a numeral. -/
def BeginsNumeral (text : List Char) : Prop :=
  ∃ whole decimals rest, text = numeralText whole decimals ++ rest ∧ IsWhole whole ∧
    IsDecimals decimals

/-- The numeral that is read at a place of a text: it takes what decimals it can. -/
structure NumeralAt (text before whole decimals rest : List Char) : Prop where
  split : text = before ++ (numeralText whole decimals ++ rest)
  isWhole : IsWhole whole
  isDecimals : IsDecimals decimals
  greedy : decimals.length = 2 ∨ ∀ c ∈ rest.head?, c.isDigit = false

/-- The numeral that is read in a text: no numeral begins before it. -/
structure ReadsNumeral (text before whole decimals rest : List Char) : Prop extends
    NumeralAt text before whole decimals rest where
  earliest : ∀ earlier later, text = earlier ++ later → earlier.length < before.length →
    ¬ BeginsNumeral later

/-- `amountMatch[1]` and where it stands. -/
def amountPlace (ocrText : List Char) : Option Capture :=
  (amountRegex.exec ocrText).bind fun m => m.groups 1

/-- The captured amount is the text of its place. -/
theorem amountCapture_eq (text : List Char) :
    amountCapture text = (amountPlace text).map Capture.text := by
  rw [amountCapture, amountPlace]
  cases amountRegex.exec text with
  | none => rfl
  | some final => rfl

/-! ## The characters of a numeral -/

/-- A whole part consists of digits and commas. -/
theorem IsWhole.all {whole : List Char} (isWhole : IsWhole whole) :
    ∀ c ∈ whole, c.isDigit = true ∨ c = ',' := by
  intro c member
  cases isWhole with
  | plain some all => exact Or.inl (all c member)
  | grouped some short all three =>
      rcases List.mem_append.mp member with member | member
      · exact Or.inl (all c member)
      · obtain ⟨digits, listed, member⟩ := List.mem_flatMap.mp member
        rcases List.mem_cons.mp member with comma | member
        · exact Or.inr comma
        · exact Or.inl ((three digits listed).2 c member)

theorem IsWhole.point_not_mem {whole : List Char} (isWhole : IsWhole whole) : '.' ∉ whole := by
  intro point
  rcases isWhole.all '.' point with digit | comma
  · exact absurd digit (by decide)
  · exact absurd comma (by decide)

/-- A whole part starts with a digit. -/
theorem IsWhole.head {whole : List Char} (isWhole : IsWhole whole) :
    ∃ c others, whole = c :: others ∧ c.isDigit = true := by
  cases isWhole with
  | plain some all =>
      have first := @Decimal.exists_digit_cons _ [] some all
      rwa [List.append_nil] at first
  | grouped some short all three => exact Decimal.exists_digit_cons some all

/-- A whole part ends with a digit. -/
theorem IsWhole.last {whole : List Char} (isWhole : IsWhole whole) :
    ∃ others c, whole = others ++ [c] ∧ c.isDigit = true := by
  have back : ∀ {front digits : List Char}, digits ≠ [] → (∀ c ∈ digits, c.isDigit = true) →
      ∃ others c, front ++ digits = others ++ [c] ∧ c.isDigit = true := by
    intro front digits nonempty all
    refine ⟨front ++ digits.dropLast, digits.getLast nonempty, ?_,
      all _ (List.getLast_mem nonempty)⟩
    rw [List.append_assoc, List.dropLast_append_getLast]
  cases isWhole with
  | plain some all => exact @back [] _ some all
  | @grouped lead commaGroups some short all three =>
      rcases List.eq_nil_or_concat commaGroups with rfl | ⟨others, digits, rfl⟩
      · rw [List.flatMap_nil, List.append_nil]
        exact @back [] _ some all
      · obtain ⟨length, digit⟩ := three digits (by simp)
        rw [List.concat_eq_append, List.flatMap_append, List.flatMap_singleton,
          ← List.append_assoc, ← List.singleton_append, ← List.append_assoc]
        exact back (List.ne_nil_of_length_pos (by omega)) digit

/-! ## The words of the pattern -/

/-- `,[0-9]{3}` -/
def commaGroup : Pattern := .seq (.lit ',') (.times 3 digit)

/-- The repeated group takes commas with three digits each. -/
theorem matches_commaGroups {word : List Char} :
    (star commaGroup).Matches word ↔ ∃ commaGroups : List (List Char),
      word = commaGroups.flatMap (',' :: ·) ∧
        ∀ digits ∈ commaGroups, digits.length = 3 ∧ ∀ c ∈ digits, c.isDigit = true := by
  refine ⟨?_, ?_⟩
  · intro taken
    obtain ⟨words, all, rfl⟩ := taken
    refine ⟨words.map List.tail, ?_, ?_⟩
    · rw [List.flatMap_map, ← List.flatMap_id, List.flatMap_congr]
      intro part listed
      obtain ⟨-, front, back, rfl, ⟨c, comma, rfl⟩, -⟩ := all part listed
      rw [of_decide_eq_true comma]
      rfl
    · intro digits member
      obtain ⟨part, listed, rfl⟩ := List.mem_map.mp member
      obtain ⟨-, front, back, rfl, ⟨c, comma, rfl⟩, taken⟩ := all part listed
      exact matches_times_char.mp taken
  · intro groups
    obtain ⟨commaGroups, rfl, three⟩ := groups
    refine ⟨commaGroups.map (',' :: ·), ?_, rfl⟩
    intro part member
    obtain ⟨digits, listed, rfl⟩ := List.mem_map.mp member
    refine ⟨List.cons_ne_nil _ _, [','], digits, rfl, ⟨',', decide_eq_true rfl, rfl⟩, ?_⟩
    exact matches_times_char.mpr (three digits listed)

/-- The decimals are a point with one or two digits. -/
theorem matches_decimals {word : List Char} :
    decimals.Matches word ↔ ∃ digits, word = '.' :: digits ∧ IsDecimals digits := by
  refine ⟨?_, ?_⟩
  · intro taken
    obtain ⟨front, digits, rfl, ⟨c, point, rfl⟩, taken⟩ := taken
    obtain ⟨some, short, all⟩ := (matches_between_char (by decide)).mp taken
    exact ⟨digits, by rw [of_decide_eq_true point]; rfl, some, short, all⟩
  · intro digits
    obtain ⟨digits, rfl, some, short, all⟩ := digits
    exact ⟨['.'], digits, rfl, ⟨'.', decide_eq_true rfl, rfl⟩,
      (matches_between_char (by decide)).mpr ⟨some, short, all⟩⟩

/-- The capture of `amountRegex`. -/
def numeral : Pattern := .alt groupedNumeral plainNumeral

/-- The words of the numeral pattern are the numerals of the grammar. -/
theorem matches_numeral {word : List Char} :
    numeral.Matches word ↔ ∃ whole decimals, word = numeralText whole decimals ∧
      IsWhole whole ∧ IsDecimals decimals := by
  refine ⟨?_, ?_⟩
  · intro taken
    rcases taken with ⟨lead, others, rfl, first, groups, fraction, rfl, second, third⟩ |
      ⟨digits, fraction, rfl, first, second⟩
    · obtain ⟨some, short, all⟩ := (matches_between_char (by decide)).mp first
      obtain ⟨commaGroups, rfl, three⟩ := matches_commaGroups.mp second
      obtain ⟨decimals, rfl, isDecimals⟩ := matches_decimals.mp third
      exact ⟨_, decimals, (List.append_assoc _ _ _).symm,
        .grouped (List.ne_nil_of_length_pos some) short all three, isDecimals⟩
    · obtain ⟨some, all⟩ := matches_atLeast_char.mp first
      obtain ⟨decimals, rfl, isDecimals⟩ := matches_decimals.mp second
      exact ⟨digits, decimals, rfl, .plain (List.ne_nil_of_length_pos some) all, isDecimals⟩
  · intro parts
    obtain ⟨whole, decimals, rfl, isWhole, isDecimals⟩ := parts
    have fraction := matches_decimals.mpr ⟨decimals, rfl, isDecimals⟩
    cases isWhole with
    | plain some all =>
        exact Or.inr ⟨_, _, rfl, matches_atLeast_char.mpr ⟨List.length_pos_iff.mpr some, all⟩,
          fraction⟩
    | grouped some short all three =>
        refine Or.inl ⟨_, _, List.append_assoc _ _ _,
          (matches_between_char (by decide)).mpr ⟨List.length_pos_iff.mpr some, short, all⟩,
          _, _, rfl, matches_commaGroups.mpr ⟨_, rfl, three⟩, fraction⟩

theorem plain_numeral : numeral.Plain := by
  have digits : ∀ count, (times count digit).Plain := @Plain.times digit trivial
  have upTo : ∀ most, (Pattern.upTo most digit).Plain := @Plain.upTo digit trivial
  exact ⟨⟨⟨digits 1, upTo 2⟩, ⟨trivial, digits 3⟩, trivial, digits 1, upTo 1⟩,
    ⟨digits 1, trivial⟩, trivial, digits 1, upTo 1⟩

theorem plain_currency : currency.Plain :=
  ⟨⟨⟨trivial, trivial, trivial⟩, ⟨trivial, trivial, trivial, trivial⟩, trivial, trivial⟩, trivial⟩

theorem plain_amountRegex : amountRegex.Plain := ⟨plain_currency, trivial, plain_numeral⟩

/-! ## The first match -/

/-- One decimal is taken only where no second digit stands. -/
theorem first_decimals_reads {cursor final : Cursor} (first : First decimals cursor final) :
    ∃ digits, cursor.rest = '.' :: (digits ++ final.rest) ∧ IsDecimals digits ∧
      (digits.length = 2 ∨ ∀ c ∈ final.rest.head?, c.isDigit = false) := by
  obtain ⟨middle, reached, second⟩ := first.exists_middle
  obtain ⟨word, ⟨c, point, rfl⟩, split, -⟩ := takes_of_mem_run (.lit '.') trivial reached
  obtain ⟨digits, rest, all, some, short, ends⟩ := First.between_char (by decide) second
  refine ⟨digits, ?_, ⟨some, short, all⟩, ends⟩
  rw [split, rest, of_decide_eq_true point]
  rfl

/-- The first match of the numeral is a numeral, with one decimal only where no second digit
stands. -/
theorem first_numeral_reads {cursor final : Cursor} (first : First numeral cursor final) :
    ∃ whole digits, cursor.rest = numeralText whole digits ++ final.rest ∧ IsWhole whole ∧
      IsDecimals digits ∧ (digits.length = 2 ∨ ∀ c ∈ final.rest.head?, c.isDigit = false) := by
  have noDigits : ∀ count, (times count digit).Plain := @Plain.times digit trivial
  rcases First.of_alt first with first | first
  · obtain ⟨middle, reached, first⟩ := first.exists_middle
    obtain ⟨lead, taken, split, -⟩ :=
      takes_of_mem_run (.between 1 3 digit) ⟨noDigits 1, @Plain.upTo digit trivial 2⟩ reached
    obtain ⟨some, short, all⟩ := (matches_between_char (by decide)).mp taken
    obtain ⟨middle', reached', first⟩ := first.exists_middle
    obtain ⟨word, taken, split', -⟩ :=
      takes_of_mem_run (.star commaGroup) ⟨trivial, noDigits 3⟩ reached'
    obtain ⟨commaGroups, rfl, three⟩ := matches_commaGroups.mp taken
    obtain ⟨digits, rest, isDecimals, ends⟩ := first_decimals_reads first
    refine ⟨_, digits, ?_, .grouped (List.ne_nil_of_length_pos some) short all three, isDecimals,
      ends⟩
    rw [split, split', rest]
    simp only [numeralText, List.append_assoc, List.cons_append]
  · obtain ⟨middle, reached, first⟩ := first.exists_middle
    obtain ⟨lead, taken, split, -⟩ :=
      takes_of_mem_run (.plus digit) ⟨noDigits 1, trivial⟩ reached
    obtain ⟨some, all⟩ := matches_atLeast_char.mp taken
    obtain ⟨digits, rest, isDecimals, ends⟩ := first_decimals_reads first
    refine ⟨lead, digits, ?_, .plain (List.ne_nil_of_length_pos some) all, isDecimals, ends⟩
    rw [split, rest]
    simp only [numeralText, List.append_assoc, List.cons_append]

/-- A text begins with a numeral exactly if it begins with a word of the pattern. -/
theorem beginsNumeral_iff {text : List Char} :
    BeginsNumeral text ↔ ∃ word rest, text = word ++ rest ∧ numeral.Matches word := by
  simp only [BeginsNumeral, matches_numeral]
  refine ⟨?_, ?_⟩
  · intro begins
    obtain ⟨whole, decimals, rest, split, isWhole, isDecimals⟩ := begins
    exact ⟨_, rest, split, whole, decimals, rfl, isWhole, isDecimals⟩
  · intro begins
    obtain ⟨word, rest, split, whole, decimals, rfl, isWhole, isDecimals⟩ := begins
    exact ⟨whole, decimals, rest, split, isWhole, isDecimals⟩

/-- Where a numeral begins, the pattern matches. -/
theorem matches_amountRegex {word : List Char} (taken : numeral.Matches word) :
    amountRegex.Matches word :=
  ⟨[], word, rfl, Or.inr rfl, [], word, rfl, ⟨[], by simp, rfl⟩, taken⟩

/-- A text that begins with a numeral begins with a digit. -/
theorem BeginsNumeral.head {text : List Char} (begins : BeginsNumeral text) :
    ∃ c rest, text = c :: rest ∧ c.isDigit = true := by
  obtain ⟨whole, decimals, rest, rfl, isWhole, -⟩ := begins
  obtain ⟨c, others, rfl, isDigit⟩ := isWhole.head
  exact ⟨c, _, rfl, isDigit⟩

/-- What the amount pattern finds is the numeral that is read in the text, captured as group 1. -/
theorem readsNumeral_of_exec {text : List Char} {final : Cursor}
    (found : amountRegex.exec text = some final) :
    ∃ before whole digits, ReadsNumeral text before whole digits final.rest ∧
      final.groups 1 = some ⟨before.reverse, numeralText whole digits⟩ := by
  obtain ⟨front, back, rfl, first, earliest⟩ := (exec_eq_some_iff plain_amountRegex).mp found
  obtain ⟨middle, currencyTaken, first⟩ := first.exists_middle
  obtain ⟨cursor, blanksTaken, first⟩ := first.exists_middle
  obtain ⟨marker, split, before, noDigit⟩ :=
    run_passes _ marker_over (mem_run_seq.mpr ⟨middle, currencyTaken, blanksTaken⟩)
  obtain ⟨next, inner, rfl⟩ := First.exists_of_group first
  obtain ⟨whole, digits, rest, isWhole, isDecimals, ends⟩ := first_numeral_reads inner
  obtain rfl : back = marker ++ cursor.rest := split
  refine ⟨front ++ marker, whole, digits, ⟨⟨?_, isWhole, isDecimals, ends⟩, ?_⟩, ?_⟩
  · rw [rest, List.append_assoc]
    rfl
  · intro earlier later same shorter begins
    by_cases outside : earlier.length < front.length
    · obtain ⟨word, rest', split, taken⟩ := beginsNumeral_iff.mp begins
      exact earliest earlier later same outside word rest' split (matches_amountRegex taken)
    · -- Neither a currency nor blanks contain the digit that a numeral begins with.
      rw [List.length_append] at shorter
      obtain ⟨passed, rfl, tails⟩ := exists_between same (not_lt.mp outside)
      obtain ⟨c, others, rfl, isDigit⟩ := begins.head
      rw [List.length_append] at shorter
      obtain ⟨more, rfl, begun⟩ := exists_between tails.symm (by omega)
      cases more with
      | nil =>
          rw [List.append_nil] at shorter
          omega
      | cons d more =>
          obtain ⟨rfl, -⟩ := List.cons.inj begun
          rw [noDigit c (List.mem_append_right _ List.mem_cons_self)] at isDigit
          cases isDigit
  · rw [capture_text 1 rest, before, List.reverse_append]
    rfl

/-- Where a numeral begins somewhere in the text, the pattern is found. -/
theorem exists_exec_of_begins {before rest : List Char} (begins : BeginsNumeral rest) :
    ∃ final, amountRegex.exec (before ++ rest) = some final := by
  obtain ⟨word, after, rfl, taken⟩ := beginsNumeral_iff.mp begins
  obtain ⟨last, succeeds⟩ := (@exists_first_iff amountRegex plain_amountRegex
    (.start (before.reverse ++ []) (word ++ after))).mpr
      ⟨word, after, rfl, matches_amountRegex taken⟩
  obtain ⟨final, found, -⟩ := @scan_satisfies (fun _ => True) amountRegex [] before
    (word ++ after) (fun _ _ _ _ _ => trivial) last succeeds
  exact ⟨final, found⟩

/-! ## What is read in a text -/

/-- The first of a character splits a text in one way. -/
theorem split_at_first {front back front' back' : List Char} {mark : Char}
    (same : front ++ mark :: back = front' ++ mark :: back') (absent : mark ∉ front)
    (absent' : mark ∉ front') : front = front' ∧ back = back' := by
  have others : ∀ {word : List Char}, mark ∉ word → ∀ c ∈ word, decide (c ≠ mark) = true :=
    fun absent c member => decide_eq_true fun equal => absent (equal ▸ member)
  have stops : ∀ {rest : List Char}, ∀ c ∈ (mark :: rest).head?, decide (c ≠ mark) = false := by
    intro rest c head
    cases head
    simp
  have lengths : front.length = front'.length :=
    Nat.le_antisymm (length_le_of_stops same (others absent) stops)
      (length_le_of_stops same.symm (others absent') stops)
  obtain ⟨equal, tails⟩ := List.append_inj same lengths
  exact ⟨equal, (List.cons.inj tails).2⟩

theorem numeralText_append (whole digits rest : List Char) :
    numeralText whole digits ++ rest = whole ++ '.' :: (digits ++ rest) := by
  rw [numeralText, List.append_assoc, List.cons_append]

/-- No decimals are longer than those that are taken. -/
theorem decimals_le {digits rest digits' rest' : List Char}
    (same : digits ++ rest = digits' ++ rest') (isDecimals : IsDecimals digits)
    (greedy' : digits'.length = 2 ∨ ∀ c ∈ rest'.head?, c.isDigit = false) :
    digits.length ≤ digits'.length := by
  rcases greedy' with two | stops
  · exact isDecimals.short.trans_eq two.symm
  · exact length_le_of_stops same isDecimals.all stops

/-- At one place only one numeral is read. -/
theorem NumeralAt.unique {text before whole digits rest whole' digits' rest' : List Char}
    (one : NumeralAt text before whole digits rest)
    (other : NumeralAt text before whole' digits' rest') :
    whole = whole' ∧ digits = digits' ∧ rest = rest' := by
  have same := List.append_cancel_left (one.split.symm.trans other.split)
  rw [numeralText_append, numeralText_append] at same
  obtain ⟨rfl, tails⟩ :=
    split_at_first same one.isWhole.point_not_mem other.isWhole.point_not_mem
  have lengths : digits.length = digits'.length :=
    Nat.le_antisymm (decimals_le tails one.isDecimals other.greedy)
      (decimals_le tails.symm other.isDecimals one.greedy)
  obtain ⟨rfl, rfl⟩ := List.append_inj tails lengths
  exact ⟨rfl, rfl, rfl⟩

theorem NumeralAt.begins {text before whole digits rest : List Char}
    (reads : NumeralAt text before whole digits rest) :
    BeginsNumeral (numeralText whole digits ++ rest) :=
  ⟨whole, digits, rest, rfl, reads.isWhole, reads.isDecimals⟩

/-- In one text only one numeral is read. -/
theorem ReadsNumeral.unique {text before whole digits rest before' whole' digits' rest' : List Char}
    (one : ReadsNumeral text before whole digits rest)
    (other : ReadsNumeral text before' whole' digits' rest') :
    before = before' ∧ whole = whole' ∧ digits = digits' ∧ rest = rest' := by
  have same := one.split.symm.trans other.split
  have lengths : before.length = before'.length := by
    apply Nat.le_antisymm
    · by_contra longer
      exact one.earliest before' _ other.split (not_le.mp longer) other.begins
    · by_contra longer
      exact other.earliest before _ one.split (not_le.mp longer) one.begins
  obtain ⟨rfl, -⟩ := List.append_inj same lengths
  exact ⟨rfl, one.toNumeralAt.unique other.toNumeralAt⟩

/-- The captured numeral is the one that is read. -/
theorem amountPlace_eq_some_iff {text : List Char} {capture : Capture} :
    amountPlace text = some capture ↔ ∃ before whole digits rest,
      ReadsNumeral text before whole digits rest ∧
        capture = ⟨before.reverse, numeralText whole digits⟩ := by
  rw [amountPlace, Option.bind_eq_some_iff]
  refine ⟨?_, ?_⟩
  · intro found
    obtain ⟨final, found, group⟩ := found
    obtain ⟨before, whole, digits, reads, captured⟩ := readsNumeral_of_exec found
    exact ⟨before, whole, digits, final.rest, reads, Option.some.inj (group.symm.trans captured)⟩
  · intro found
    obtain ⟨before, whole, digits, rest, reads, rfl⟩ := found
    obtain ⟨final, found⟩ := @exists_exec_of_begins before _ reads.begins
    rw [← reads.split] at found
    obtain ⟨before', whole', digits', reads', captured⟩ := readsNumeral_of_exec found
    obtain ⟨rfl, rfl, rfl, -⟩ := reads'.unique reads
    exact ⟨final, found, captured⟩

/-- Wherever a numeral begins, one is read. -/
theorem ReadsNumeral.exists_of_begins {before rest : List Char} (begins : BeginsNumeral rest) :
    ∃ before' whole digits rest', ReadsNumeral (before ++ rest) before' whole digits rest' := by
  obtain ⟨final, found⟩ := @exists_exec_of_begins before rest begins
  obtain ⟨before', whole, digits, reads, -⟩ := readsNumeral_of_exec found
  exact ⟨before', whole, digits, final.rest, reads⟩

/-! ## The value of a numeral -/

/-- The hundredths that a numeral denotes. -/
def hundredthsOf (whole digits : List Char) : ℕ :=
  Decimal.value (whole.filter (· ≠ ',')) * 100 + Decimal.value digits * 10 ^ (2 - digits.length)

theorem filter_comma {digits : List Char} (all : ∀ c ∈ digits, c.isDigit = true) :
    digits.filter (· ≠ ',') = digits := by
  apply List.filter_eq_self.mpr
  intro c member
  apply decide_eq_true
  intro comma
  have isDigit := all c member
  rw [comma] at isDigit
  cases isDigit

/-- Without its commas a whole part consists of digits. -/
theorem IsWhole.filter_digits {whole : List Char} (isWhole : IsWhole whole) :
    ∀ c ∈ whole.filter (· ≠ ','), c.isDigit = true := by
  intro c member
  obtain ⟨member, other⟩ := List.mem_filter.mp member
  exact (isWhole.all c member).resolve_right (of_decide_eq_true other)

theorem IsWhole.filter_ne_nil {whole : List Char} (isWhole : IsWhole whole) :
    whole.filter (· ≠ ',') ≠ [] := by
  obtain ⟨c, others, rfl, isDigit⟩ := isWhole.head
  have kept : c ∈ (c :: others).filter (· ≠ ',') := by
    refine List.mem_filter.mpr ⟨List.mem_cons_self, decide_eq_true ?_⟩
    rintro rfl
    cases isDigit
  exact List.ne_nil_of_mem kept

/-- Without its commas a numeral is a decimal literal. -/
theorem literal_numeralText {whole digits : List Char} (isWhole : IsWhole whole)
    (isDecimals : IsDecimals digits) :
    Decimal.literal ((numeralText whole digits).filter (· ≠ ',')) =
      some ((hundredthsOf whole digits : ℚ) / 100) := by
  have text : (numeralText whole digits).filter (· ≠ ',') =
      whole.filter (· ≠ ',') ++ '.' :: (digits ++ []) := by
    rw [numeralText, List.filter_append, List.filter_cons_of_pos (by decide),
      filter_comma isDecimals.all, List.append_nil]
  have all := isWhole.filter_digits
  have some := isWhole.filter_ne_nil
  rw [text, Decimal.literal_of_isDigit (fun c head => all c (List.mem_of_mem_head? head)) some,
    Decimal.unsignedLiteral_fraction some all isDecimals.all (by simp), Decimal.value_append,
    hundredthsOf, Decimal.exponent, Option.map_some]
  have lengths : digits.length = 1 ∨ digits.length = 2 := by
    have long := isDecimals.some
    have short := isDecimals.short
    omega
  congr 1
  rcases lengths with one | two
  · rw [one]
    push_cast
    ring
  · rw [two]
    push_cast
    ring

/-- A longer numeral around the same point denotes no less. -/
theorem hundredthsOf_le {front whole digits more : List Char}
    (short : (digits ++ more).length ≤ 2) :
    hundredthsOf whole digits ≤ hundredthsOf (front ++ whole) (digits ++ more) := by
  rw [List.length_append] at short
  have power : 10 ^ more.length * 10 ^ (2 - (digits ++ more).length) =
      10 ^ (2 - digits.length) := by
    rw [← pow_add, List.length_append]
    congr 1
    omega
  have wholes : Decimal.value (whole.filter (· ≠ ',')) ≤
      Decimal.value ((front ++ whole).filter (· ≠ ',')) := by
    rw [List.filter_append, Decimal.value_append]
    exact Nat.le_add_left _ _
  have fractions : Decimal.value digits * 10 ^ (2 - digits.length) ≤
      Decimal.value (digits ++ more) * 10 ^ (2 - (digits ++ more).length) := by
    rw [Decimal.value_append, ← power, add_mul]
    exact (Nat.le_of_eq (by ring)).trans (Nat.le_add_right _ _)
  exact Nat.add_le_add (Nat.mul_le_mul_right _ wholes) fractions

/-- The amount that is read in a text. -/
theorem ReadsNumeral.amount_eq {text before whole digits rest : List Char}
    (reads : ReadsNumeral text before whole digits rest) (rounding : ℚ → Option Number) :
    (parseWithRegex rounding text).amount = rounding ((hundredthsOf whole digits : ℚ) / 100) := by
  have captured := amountPlace_eq_some_iff.mpr ⟨_, _, _, _, reads, rfl⟩
  simp only [parseWithRegex, amountCapture_eq, captured, Option.map_some, Option.bind_some,
    Number.ofText, literal_numeralText reads.isWhole reads.isDecimals]

/-! ## The first point between digits -/

/-- A point between these two texts has a digit on either side. -/
def BetweenDigits (before after : List Char) : Prop :=
  (∃ others c, before = others ++ [c] ∧ c.isDigit = true) ∧
    ∃ c others, after = c :: others ∧ c.isDigit = true

/-- The first point of a text that has a digit on either side. -/
structure FirstPoint (text before after : List Char) : Prop where
  split : text = before ++ '.' :: after
  between : BetweenDigits before after
  earliest : ∀ earlier later, text = earlier ++ '.' :: later → earlier.length < before.length →
    ¬ BetweenDigits earlier later

/-- There is one first point between digits. -/
theorem FirstPoint.unique {text before after before' after' : List Char}
    (one : FirstPoint text before after) (other : FirstPoint text before' after') :
    before = before' ∧ after = after' := by
  have same := one.split.symm.trans other.split
  have lengths : before.length = before'.length := by
    apply Nat.le_antisymm
    · by_contra longer
      exact one.earliest before' after' other.split (not_le.mp longer) other.between
    · by_contra longer
      exact other.earliest before after one.split (not_le.mp longer) one.between
  obtain ⟨rfl, tails⟩ := List.append_inj same lengths
  exact ⟨rfl, (List.cons.inj tails).2⟩

/-- A digit, a point and a digit begin a numeral. -/
theorem beginsNumeral_of_digit {c d : Char} (isDigit : c.isDigit = true)
    (isDigit' : d.isDigit = true) (rest : List Char) : BeginsNumeral (c :: '.' :: d :: rest) :=
  ⟨[c], [d], rest, rfl, .plain (List.cons_ne_nil _ _) (by simpa using isDigit),
    ⟨le_rfl, one_le_two, by simpa using isDigit'⟩⟩

/-- A numeral is read around the first point between digits. -/
theorem ReadsNumeral.firstPoint {text before whole digits rest : List Char}
    (reads : ReadsNumeral text before whole digits rest) :
    FirstPoint text (before ++ whole) (digits ++ rest) := by
  have split : text = (before ++ whole) ++ '.' :: (digits ++ rest) := by
    rw [reads.split, numeralText_append, List.append_assoc]
  refine ⟨split, ⟨?_, ?_⟩, ?_⟩
  · obtain ⟨others, c, rfl, isDigit⟩ := reads.isWhole.last
    exact ⟨before ++ others, c, (List.append_assoc _ _ _).symm, isDigit⟩
  · obtain ⟨c, others, rfl⟩ := List.exists_cons_of_length_pos reads.isDecimals.some
    exact ⟨c, others ++ rest, rfl, reads.isDecimals.all c List.mem_cons_self⟩
  · intro earlier later same shorter between
    obtain ⟨⟨others, c, rfl, isDigit⟩, d, after, rfl, isDigit'⟩ := between
    have here : before.length ≤ others.length := by
      by_contra sooner
      refine reads.earliest others (c :: '.' :: d :: after) ?_ (not_le.mp sooner)
        (beginsNumeral_of_digit isDigit isDigit' after)
      rw [same, List.append_assoc]
      rfl
    -- The point would be one of the characters before the point of the numeral.
    have inside : '.' ∈ whole := by
      obtain ⟨more, whole_eq, tails⟩ := exists_between (same.symm.trans split) shorter.le
      have lengths := congrArg List.length whole_eq
      cases more with
      | nil =>
          rw [List.append_nil] at lengths
          exact absurd shorter (lengths ▸ lt_irrefl _)
      | cons e more =>
          obtain ⟨rfl, -⟩ := List.cons.inj tails
          rw [List.append_assoc] at whole_eq
          obtain ⟨between, -, rest_eq⟩ := exists_between whole_eq here
          rw [rest_eq]
          simp
    exact reads.isWhole.point_not_mem inside

/-- Around the first point between digits a numeral is read. -/
theorem FirstPoint.exists_reads {text before after : List Char}
    (point : FirstPoint text before after) :
    ∃ front whole digits rest, ReadsNumeral text front whole digits rest := by
  obtain ⟨⟨others, c, rfl, isDigit⟩, d, rest, rfl, isDigit'⟩ := point.between
  have reads := @ReadsNumeral.exists_of_begins others _
    (beginsNumeral_of_digit isDigit isDigit' rest)
  rw [point.split, List.append_assoc]
  exact reads

/-- An amount that is found is that of a numeral in the text. -/
theorem exists_reads_of_amount {rounding : ℚ → Option Number} {text : List Char} {amount : Number}
    (found : (parseWithRegex rounding text).amount = some amount) :
    ∃ before whole digits rest, ReadsNumeral text before whole digits rest := by
  rw [parseWithRegex, Option.bind_eq_some_iff] at found
  obtain ⟨numeral, captured, -⟩ := found
  rw [amountCapture_eq, Option.map_eq_some_iff] at captured
  obtain ⟨capture, captured, -⟩ := captured
  obtain ⟨before, whole, digits, rest, reads, -⟩ := amountPlace_eq_some_iff.mp captured
  exact ⟨before, whole, digits, rest, reads⟩

end BirrTrack.Processing
