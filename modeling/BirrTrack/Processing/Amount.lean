import BirrTrack.Processing.Parsing
import BirrTrack.Transactions.Creation

/-! # Amounts from receipt text to stored key

A receipt's amount, printed plainly or with comma groups, is captured whole, read as a
Number, written with `toFixed(2)` and stored. None of these steps moves a cent within
the range of the column.
-/

namespace BirrTrack.Processing

open Js Transactions Database Backtracking Pattern

/-- The two ways in which an amount of `n` hundredths is printed. -/
inductive IsNumeral (n : ℕ) : List Char → Prop where
  | plain : IsNumeral n (Decimal.fixed2 n)
  | grouped : IsNumeral n (Decimal.grouped (n / 100) ++ '.' :: Decimal.padded 2 (n % 100))

/-- A text whose first number is the amount of `n` hundredths. -/
inductive IsReceipt (n : ℕ) : List Char → Prop where
  | text {before numeral after : List Char} (printed : IsNumeral n numeral)
      (noDigit : ∀ c ∈ before, c.isDigit = false) (stops : ∀ c ∈ after.head?, c.isDigit = false) :
      IsReceipt n (before ++ (numeral ++ after))

/-! ## The captured numeral -/

section Capture

variable {before rest digits : List Char} {groups : ℕ → Option Capture}

/-- A point and two digits are taken whole. -/
theorem first_decimals (two : digits.length = 2) (all : ∀ c ∈ digits, c.isDigit = true) :
    First decimals ⟨before, '.' :: (digits ++ rest), groups⟩
      ⟨digits.reverse ++ '.' :: before, rest, groups⟩ :=
  First.seq (first_char (decide_eq_true rfl))
    (first_between_char (by omega) (by omega) all (Or.inl two))

theorem decimals_run_eq_nil {cursor : Cursor} (notPoint : ∀ c ∈ cursor.rest.head?, c ≠ '.') :
    decimals.run cursor = [] :=
  run_seq_eq_nil_left (run_char_eq_nil fun c first => decide_eq_false (notPoint c first))

theorem comma_run_eq_nil {cursor : Cursor} (notComma : ∀ c ∈ cursor.rest.head?, c ≠ ',') :
    (seq (.lit ',') (.times 3 digit)).run cursor = [] :=
  run_seq_eq_nil_left (run_char_eq_nil fun c first => decide_eq_false (notComma c first))

/-- All the comma groups are taken. -/
theorem first_commaGroups {commaGroups : List (List Char)}
    (three : ∀ digits ∈ commaGroups, digits.length = 3 ∧ ∀ c ∈ digits, c.isDigit = true)
    (stops : ∀ c ∈ rest.head?, c ≠ ',') :
    First (.star (.seq (.lit ',') (.times 3 digit)))
      ⟨before, commaGroups.flatMap (',' :: ·) ++ rest, groups⟩
      ⟨(commaGroups.flatMap (',' :: ·)).reverse ++ before, rest, groups⟩ := by
  induction commaGroups generalizing before with
  | nil => exact first_star_of_body_nil (comma_run_eq_nil stops)
  | cons digits commaGroups ih =>
      obtain ⟨length, all⟩ := three digits List.mem_cons_self
      rw [List.flatMap_cons, List.append_assoc, List.cons_append, List.reverse_append,
        List.append_assoc, List.reverse_cons, List.append_assoc, List.singleton_append]
      refine First.star (First.seq (first_char (decide_eq_true rfl)) (first_times_char length all))
        ?_ (ih fun other member => three other (List.mem_cons_of_mem digits member))
      simp only [List.length_cons, List.length_append]
      omega

/-- A lead of one to three digits, comma groups and two decimals are taken by the first
alternative. -/
theorem first_groupedNumeral {lead : List Char} {commaGroups : List (List Char)}
    (nonempty : lead ≠ []) (short : lead.length ≤ 3) (all : ∀ c ∈ lead, c.isDigit = true)
    (three : ∀ digits ∈ commaGroups, digits.length = 3 ∧ ∀ c ∈ digits, c.isDigit = true)
    (two : digits.length = 2) (allDecimals : ∀ c ∈ digits, c.isDigit = true) :
    First groupedNumeral
      ⟨before, lead ++ (commaGroups.flatMap (',' :: ·) ++ '.' :: (digits ++ rest)), groups⟩
      ⟨digits.reverse ++
        '.' :: ((commaGroups.flatMap (',' :: ·)).reverse ++ (lead.reverse ++ before)),
        rest, groups⟩ := by
  have stops : ∀ c ∈ (commaGroups.flatMap (',' :: ·) ++ '.' :: (digits ++ rest)).head?,
      c.isDigit = false := by
    intro c first
    cases commaGroups with
    | nil => cases first; rfl
    | cons group commaGroups => cases first; rfl
  have some : 1 ≤ lead.length := List.length_pos_iff.mpr nonempty
  refine First.seq (first_between_char some short all (Or.inr stops)) ?_
  refine First.seq (first_commaGroups three ?_) (first_decimals two allDecimals)
  intro c first
  cases first
  decide

/-- The first alternative takes no run of more than three digits. -/
theorem groupedNumeral_run_eq_nil {lead : List Char} (long : 3 < lead.length)
    (all : ∀ c ∈ lead, c.isDigit = true) :
    groupedNumeral.run ⟨before, lead ++ rest, groups⟩ = [] := by
  apply run_seq_eq_nil
  intro middle reached
  obtain ⟨word, split, short⟩ := mem_run_between_char (by decide) reached
  have left : middle.rest = lead.drop word.length ++ rest := by
    have dropped := congrArg (List.drop word.length) split
    rw [List.drop_left, List.drop_append_of_le_length (by omega)] at dropped
    exact dropped.symm
  obtain ⟨c, others, more⟩ : ∃ c others, lead.drop word.length = c :: others :=
    List.exists_cons_of_length_pos (by rw [List.length_drop]; omega)
  have isDigit : c.isDigit = true := all c (List.mem_of_mem_drop (more ▸ List.mem_cons_self))
  have head : ∀ d ∈ middle.rest.head?, d.isDigit = true := by
    intro d first
    rw [left, more] at first
    cases first
    exact isDigit
  have differs : ∀ d ∈ middle.rest.head?, ∀ other, other.isDigit = false → d ≠ other := by
    intro d first other notDigit same
    have isDigit := head d first
    rw [same, notDigit] at isDigit
    cases isDigit
  -- Neither a comma group nor the decimals can follow.
  apply run_seq_eq_nil
  intro last stopped
  rw [run_star_of_body_nil (comma_run_eq_nil fun d first => differs d first ',' rfl),
    List.mem_singleton] at stopped
  rw [stopped]
  exact decimals_run_eq_nil fun d first => differs d first '.' rfl

/-- A printed amount is captured whole. -/
theorem first_numeral {n : ℕ} {numeral : List Char} (printed : IsNumeral n numeral) :
    ∃ reached, First (.alt groupedNumeral plainNumeral) ⟨before, numeral ++ rest, groups⟩ reached ∧
      reached.rest = rest := by
  have two : (Decimal.padded 2 (n % 100)).length = 2 := Decimal.length_padded _ _
  have allDecimals : ∀ c ∈ Decimal.padded 2 (n % 100), c.isDigit = true :=
    fun c member => Decimal.isDigit_of_mem_padded member
  cases printed with
  | plain =>
      rw [Decimal.fixed2, List.append_assoc, List.cons_append]
      by_cases short : (Nat.toDigits 10 (n / 100)).length ≤ 3
      · have noGroups : ∀ digits ∈ ([] : List (List Char)),
            digits.length = 3 ∧ ∀ c ∈ digits, c.isDigit = true :=
          fun digits member => absurd member List.not_mem_nil
        have found := @first_groupedNumeral before rest _ groups _ [] Nat.toDigits_ne_nil short
          Decimal.isDigit_of_mem_toDigits noGroups two allDecimals
        rw [List.flatMap_nil, List.nil_append] at found
        exact ⟨_, First.alt found, rfl⟩
      · have digits : ∀ c ∈ Nat.toDigits 10 (n / 100), c.isDigit = true :=
          Decimal.isDigit_of_mem_toDigits
        refine ⟨_, First.alt_right (groupedNumeral_run_eq_nil (by omega) digits)
          (First.seq (first_atLeast_char Nat.length_toDigits_pos digits ?_)
            (first_decimals two allDecimals)), rfl⟩
        intro c first
        cases first
        rfl
  | grouped =>
      obtain ⟨lead, commaGroups, shape, nonempty, short, all, three⟩ :=
        Decimal.grouped_shape (n / 100)
      rw [shape, List.append_assoc, List.append_assoc, List.cons_append]
      have found := @first_groupedNumeral before rest _ groups lead commaGroups nonempty short all
        three two allDecimals
      exact ⟨_, First.alt found, rfl⟩

end Capture

/-- A printed amount starts with a digit. -/
theorem numeral_head {n : ℕ} {numeral : List Char} (printed : IsNumeral n numeral) :
    ∃ c others, numeral = c :: others ∧ c.isDigit = true := by
  cases printed with
  | plain =>
      exact Decimal.exists_digit_cons Nat.toDigits_ne_nil Decimal.isDigit_of_mem_toDigits
  | grouped =>
      obtain ⟨lead, commaGroups, shape, nonempty, -, all, -⟩ := Decimal.grouped_shape (n / 100)
      rw [shape, List.append_assoc]
      exact Decimal.exists_digit_cons nonempty all

/-- Two ways to split a text before its first digit are the same. -/
theorem split_before_digit {first second rest rest' : List Char} {c d : Char}
    (same : first ++ c :: rest = second ++ d :: rest') (noDigit : ∀ e ∈ first, e.isDigit = false)
    (noDigit' : ∀ e ∈ second, e.isDigit = false) (isDigit : c.isDigit = true)
    (isDigit' : d.isDigit = true) : first = second ∧ c :: rest = d :: rest' := by
  have taken : ∀ {front back : List Char} {e : Char}, (∀ e ∈ front, e.isDigit = false) →
      e.isDigit = true → (front ++ e :: back).takeWhile (fun e => !e.isDigit) = front := by
    intro front back e none digit
    rw [List.takeWhile_append_of_pos fun e member => by simp [none e member],
      List.takeWhile_cons_of_neg (by simp [digit]), List.append_nil]
  have equal : first = second := by
    rw [← taken noDigit isDigit, same, taken noDigit' isDigit']
  rw [equal] at same
  exact ⟨equal, List.append_cancel_left same⟩

/-- The captured numerals start with a digit. -/
theorem numeral_run_needs_digit {cursor final : Cursor}
    (first : First (.group 1 (.alt groupedNumeral plainNumeral)) cursor final) :
    ∃ c rest, cursor.rest = c :: rest ∧ c.isDigit = true := by
  rw [First, run_group, List.head?_map, Option.map_eq_some_iff] at first
  obtain ⟨reached, first, -⟩ := first
  obtain ⟨before, rest, groups⟩ := cursor
  have fails : (∀ c ∈ rest.head?, c.isDigit = false) →
      (Pattern.alt groupedNumeral plainNumeral).run ⟨before, rest, groups⟩ = [] := by
    intro notDigit
    have noDigit : digit.run ⟨before, rest, groups⟩ = [] := run_char_eq_nil notDigit
    have noGrouped : groupedNumeral.run ⟨before, rest, groups⟩ = [] :=
      run_seq_eq_nil_left (run_seq_eq_nil_left (run_seq_eq_nil_left noDigit))
    have noPlain : plainNumeral.run ⟨before, rest, groups⟩ = [] :=
      run_seq_eq_nil_left (run_seq_eq_nil_left (run_seq_eq_nil_left noDigit))
    rw [run_alt, noGrouped, noPlain, List.append_nil]
  cases rest with
  | nil =>
      rw [fails fun c impossible => by cases impossible] at first
      cases first
  | cons c rest =>
      by_cases isDigit : c.isDigit = true
      · exact ⟨c, rest, rfl, isDigit⟩
      · rw [fails fun d head => by cases head; simpa using isDigit] at first
        cases first

/-! ## What may stand before the numeral -/

/-- A letter is not a digit, in whatever case. -/
theorem litI_over {c : Char} (letter : c.toLower.isDigit = false) :
    Pattern.Over (fun d => d.isDigit = false) (litI c) := by
  intro d accepted
  by_contra isDigit
  rw [Bool.not_eq_false] at isDigit
  rw [decide_eq_true_eq, toLower_of_isDigit isDigit] at accepted
  rw [← accepted, isDigit] at letter
  cases letter

/-- The currency and the blanks before a numeral contain no digit. -/
theorem marker_over : Pattern.Over (fun c => c.isDigit = false) (.seq currency (.star space)) := by
  have letters : ∀ word : List Char, (word.all fun c => ! c.toLower.isDigit) = true →
      Pattern.Over (fun c => c.isDigit = false) (.concat (word.map litI)) := by
    intro word all
    induction word with
    | nil => trivial
    | cons c word ih =>
        rw [List.all_cons, Bool.and_eq_true, Bool.not_eq_true'] at all
        have front := litI_over all.1
        have back := ih all.2
        cases word with
        | nil => exact front
        | cons d word => exact ⟨front, back⟩
  exact ⟨⟨⟨letters _ rfl, letters _ rfl, letters _ rfl⟩, trivial⟩,
    fun c blank => isDigit_of_isSpace blank⟩

/-- A class without digits fails before a digit. -/
theorem run_char_before_digit {accepts : Char → Bool} {cursor : Cursor}
    (within : Pattern.Over (fun c => c.isDigit = false) (.char accepts))
    (digits : ∀ c ∈ cursor.rest.head?, c.isDigit = true) : (char accepts).run cursor = [] := by
  apply run_char_eq_nil
  intro c first
  by_contra accepted
  have noDigit : c.isDigit = false := within c (by simpa only [Bool.not_eq_false] using accepted)
  rw [digits c first] at noDigit
  cases noDigit

/-- Before a digit there is neither a currency nor a blank. -/
theorem first_marker {cursor : Cursor} (digits : ∀ c ∈ cursor.rest.head?, c.isDigit = true) :
    First currency cursor cursor ∧ First (.star space) cursor cursor := by
  have noLetter : ∀ c, c.toLower.isDigit = false → (litI c).run cursor = [] :=
    fun c letter => run_char_before_digit (litI_over letter) digits
  have noBlank : space.run cursor = [] := run_char_before_digit marker_over.2 digits
  have noEtb : (wordI "ETB").run cursor = [] := run_seq_eq_nil_left (noLetter 'E' rfl)
  have noBirr : (wordI "Birr").run cursor = [] := run_seq_eq_nil_left (noLetter 'B' rfl)
  have noBr : (oneOf [wordI "Br"]).run cursor = [] := run_seq_eq_nil_left (noLetter 'B' rfl)
  refine ⟨first_opt_of_nil ?_, first_star_of_body_nil noBlank⟩
  change _ ++ (_ ++ _) = []
  rw [noEtb, noBirr, noBr, List.append_nil, List.append_nil]

/-- Wherever the match of a receipt begins, it captures the printed amount. -/
theorem amountCapture_of_receipt {n : ℕ} {text : List Char} (receipt : IsReceipt n text) :
    ∃ numeral, IsNumeral n numeral ∧ amountCapture text = some numeral := by
  obtain @⟨before, numeral, after, printed, noDigit, -⟩ := receipt
  refine ⟨numeral, printed, ?_⟩
  obtain ⟨c, others, numeral_eq, isDigit⟩ := numeral_head printed
  have digits : ∀ d ∈ (numeral ++ after).head?, d.isDigit = true := by
    intro d first
    rw [numeral_eq] at first
    cases first
    exact isDigit
  have succeeds : ∃ last,
      First amountRegex (.start (before.reverse ++ []) (numeral ++ after)) last := by
    obtain ⟨reached, found, -⟩ := @first_numeral (before.reverse ++ []) after _ n numeral printed
    exact ⟨_, First.seq (first_marker digits).1 (First.seq (first_marker digits).2
      (First.group 1 found))⟩
  obtain ⟨last, succeeds⟩ := succeeds
  have good : ∃ final, amountRegex.scan [] (before ++ (numeral ++ after)) = some final ∧
      final.text 1 = some numeral := by
    apply scan_satisfies amountRegex _ succeeds
    intro front back split final first
    -- What was passed before the group holds no digit, so the group begins at the numeral.
    obtain ⟨middle, currencyTaken, first⟩ := first.exists_middle
    obtain ⟨⟨passed, rest, groups⟩, blanksTaken, first⟩ := first.exists_middle
    obtain ⟨word, split', -, all⟩ :=
      run_passes _ marker_over (mem_run_seq.mpr ⟨middle, currencyTaken, blanksTaken⟩)
    obtain ⟨d, rest', rfl, isDigit'⟩ := numeral_run_needs_digit first
    rw [numeral_eq] at split'
    obtain ⟨-, same⟩ := split_before_digit split'
      (fun e member => noDigit e (split ▸ List.mem_append_right front member)) all isDigit isDigit'
    have rest_eq : d :: rest' = numeral ++ after := by rw [← same, numeral_eq]; rfl
    rw [rest_eq] at first
    obtain ⟨reached, found, stopped⟩ := @first_numeral passed after groups n numeral printed
    have same : some final = some _ := first.symm.trans (First.group 1 found)
    cases same
    rw [Cursor.text, @capture_text _ reached numeral 1 (by rw [stopped]), Option.map_some]
  obtain ⟨final, scanned, captured⟩ := good
  rw [amountCapture, exec, scanned, Option.bind_some, captured]

/-! ## From the numeral to the column -/

/-- A rounding whose relative error is at most `2 ^ (-53)` on the amounts of the column. -/
def Accurate (rounding : ℚ → Option Number) : Prop :=
  ∀ cents : ℕ, cents < 10 ^ 14 → ∃ number, rounding (cents / 100) = some number ∧
    |number.val - cents / 100| ≤ 2 ^ (-53 : ℤ) * (cents / 100)

/-- The nearest Numbers are accurate. -/
theorem accurate_ofRat : Accurate Number.ofRat := by
  intro cents small
  by_cases zero : cents = 0
  · rw [zero]
    exact ⟨⟨0, Binary64.representable_zero⟩, Number.ofRat_eq_some (by decide +kernel), by norm_num⟩
  have positive : (1 : ℚ) ≤ cents := by exact_mod_cast Nat.one_le_iff_ne_zero.mpr zero
  have bounded : (cents : ℚ) < 10 ^ 14 := by exact_mod_cast small
  have normal : (2 : ℚ) ^ (-1022 : ℤ) ≤ cents / 100 := by
    have tiny : (2 : ℚ) ^ (-1022 : ℤ) ≤ 2 ^ (-7 : ℤ) :=
      zpow_le_zpow_right₀ one_le_two (by norm_num)
    have hundredth : (2 : ℚ) ^ (-7 : ℤ) ≤ 1 / 100 := by norm_num
    exact tiny.trans (hundredth.trans (by linarith))
  have finite : (cents : ℚ) / 100 < 2 ^ 1023 := by
    calc (cents : ℚ) / 100 < 2 ^ 47 := by linarith
      _ ≤ 2 ^ 1023 := pow_le_pow_right₀ one_le_two (by decide)
  obtain ⟨v, rounded, error⟩ := Binary64.round_relative_error normal finite
  exact ⟨⟨v, Binary64.representable_of_round rounded⟩, Number.ofRat_eq_some rounded, error⟩

/-- An accurate rounding of an amount is written as that amount. -/
theorem toFixed2_of_near {cents : ℕ} {number : Number} (small : cents < 10 ^ 14)
    (near : |number.val - cents / 100| ≤ 2 ^ (-53 : ℤ) * (cents / 100)) :
    number.toFixed2 = String.ofList (Decimal.fixed2 cents) := by
  have bounded : (cents : ℚ) < 10 ^ 14 := by exact_mod_cast small
  have nonneg : (0 : ℚ) ≤ cents := Nat.cast_nonneg cents
  have error : |number.val - (cents : ℤ) / 100| < 1 / 200 := by
    rw [Int.cast_natCast]
    calc |number.val - cents / 100| ≤ 2 ^ (-53 : ℤ) * (cents / 100) := near
      _ < 2 ^ (-53 : ℤ) * 10 ^ 12 := mul_lt_mul_of_pos_left (by linarith) (by positivity)
      _ ≤ 1 / 200 := by norm_num
  have hundredths := Decimal.hundredths_eq error
  have valueNonneg : 0 ≤ number.val := by
    have factor : (2 : ℚ) ^ (-53 : ℤ) ≤ 1 := by norm_num
    nlinarith [(abs_le.mp near).1]
  have valueBounded : number.val < 10 ^ 21 := by
    have high := (abs_lt.mp error).2
    push_cast at high
    linarith
  rw [(Number.literal_toFixed2 valueNonneg valueBounded).1, hundredths, Int.toNat_natCast]

/-- Wherever the amount is stored or looked up, it is `n` hundredths: `create` stores them whenever
the other columns take their values, and `findDuplicate` finds exactly the rows that hold them
under the number and the time it is given. -/
structure StandsFor (amount : Number) (n : ℕ) : Prop where
  written : amount.toFixed2 = String.ofList (Decimal.fixed2 n)
  creates : ∀ reader generated (dto : CreateTransactionDto) db, dto.amount = amount →
    ((∃ saved after, (create reader generated dto).run db = (.ok saved, after)) ↔
      dto.FitsBesidesAmount reader ∧ generated.id ∉ db.transactions.map TransactionRow.id)
  stored : ∀ reader generated (dto : CreateTransactionDto) db saved after, dto.amount = amount →
    (create reader generated dto).run db = (.ok saved, after) →
      saved.amount = String.ofList (Decimal.fixed2 n) ∧
        ∃ row, after.transactions = db.transactions ++ [row] ∧ row.amount.cents = (n : ℤ)
  found : ∀ reader number timestamp instant db,
    Timestamptz.ofDate reader (newDate reader timestamp) = some instant →
      (findDuplicate reader (Text.value number) amount timestamp).run db =
        (.ok ((db.transactions.find? fun row => row.transactionId.value = number.value ∧
          row.amount.cents = (n : ℤ) ∧ row.timestamp = instant).map TransactionRow.toEntity), db)

/-- The amount of a receipt reaches the stored row and the lookup unchanged. -/
structure KeepsAmount (rounding : ℚ → Option Number) (n : ℕ) (text : List Char) : Prop where
  captured : (amountCapture text).map (List.filter (· ≠ ',')) = some (Decimal.fixed2 n)
  parsed : ∃ amount, (parseWithRegex rounding text).amount = some amount ∧ StandsFor amount n

variable {rounding : ℚ → Option Number} {n : ℕ} {text : List Char}

/-- Without its commas a printed amount is the plain one. -/
theorem IsNumeral.filter_eq {numeral : List Char} (printed : IsNumeral n numeral) :
    numeral.filter (· ≠ ',') = Decimal.fixed2 n := by
  have keeps : ∀ {digits : List Char}, (∀ c ∈ digits, c.isDigit = true) →
      digits.filter (· ≠ ',') = digits := by
    intro digits all
    apply List.filter_eq_self.mpr
    intro c member
    apply decide_eq_true
    intro comma
    have isDigit := all c member
    rw [comma] at isDigit
    cases isDigit
  have whole : (Nat.toDigits 10 (n / 100)).filter (· ≠ ',') = Nat.toDigits 10 (n / 100) :=
    keeps Decimal.isDigit_of_mem_toDigits
  have fraction : (Decimal.padded 2 (n % 100)).filter (· ≠ ',') = Decimal.padded 2 (n % 100) :=
    keeps fun c member => Decimal.isDigit_of_mem_padded member
  have point : ('.' :: Decimal.padded 2 (n % 100)).filter (· ≠ ',') =
      '.' :: Decimal.padded 2 (n % 100) := by
    rw [List.filter_cons_of_pos (by decide), fraction]
  cases printed with
  | plain => rw [Decimal.fixed2, List.filter_append, whole, point]
  | grouped => rw [List.filter_append, Decimal.grouped_filter, point]; rfl

/-- The amount read from a receipt is the rounding of the printed one. -/
theorem parse_amount_of_receipt (receipt : IsReceipt n text) :
    (amountCapture text).map (List.filter (· ≠ ',')) = some (Decimal.fixed2 n) ∧
      (parseWithRegex rounding text).amount = rounding (n / 100) := by
  obtain ⟨numeral, printed, captured⟩ := amountCapture_of_receipt receipt
  refine ⟨by rw [captured, Option.map_some, printed.filter_eq], ?_⟩
  simp only [parseWithRegex, captured, Option.bind_some, printed.filter_eq, Number.ofText,
    Decimal.literal_fixed2]

/-- An amount that is written as `n` hundredths is stored and looked up as these. -/
theorem standsFor_of_written {amount : Number} (small : n < 10 ^ 14)
    (written : amount.toFixed2 = String.ofList (Decimal.fixed2 n)) : StandsFor amount n := by
  have bounded : |(n : ℤ)| < 10 ^ 14 := by
    rw [abs_of_nonneg (Int.natCast_nonneg n)]
    exact_mod_cast small
  have column : Numeric.ofText amount.toFixed2 = some ⟨n, bounded⟩ := by
    rw [written, Numeric.ofText, String.toList_ofList, Decimal.literal_fixed2, Option.bind_some]
    exact (congrArg Numeric.ofCents (Decimal.hundredths_intCast_div n)).trans
      (Numeric.ofCents_cents ⟨n, bounded⟩)
  refine ⟨written, ?_, ?_, ?_⟩
  · intro reader generated dto db same
    exact exists_create_ok_iff (same ▸ column)
  · intro reader generated dto db saved after same created
    obtain ⟨row, converts, inserted, savedEq⟩ := create_eq_ok.mp created
    obtain ⟨-, -, -, amountStored, -⟩ := toRow_eq_some.mp converts
    have amountText : (dto.toNew reader).amount = amount.toFixed2 := by rw [← same]; rfl
    rw [amountText, column] at amountStored
    refine ⟨by rw [savedEq, ← written, ← amountText]; rfl, row,
      (Db.insert_eq_some.mp inserted).2.1, ?_⟩
    exact congrArg Numeric.cents (Option.some.inj amountStored).symm
  · intro reader number timestamp instant db sends
    have known : keyOf reader number.value amount timestamp = some ⟨number.value, n, instant⟩ := by
      refine keyOf_eq_some.mpr ⟨?_, congrArg (Option.map Numeric.cents) column, sends⟩
      exact congrArg (Option.map Text.value) (Text.ofString_value number)
    rw [findDuplicate_of_key known]
    simp only [TransactionKey.ext_iff]
    rfl

theorem keepsAmount_of_receipt (accurate : Accurate rounding) (small : n < 10 ^ 14)
    (receipt : IsReceipt n text) : KeepsAmount rounding n text := by
  obtain ⟨captured, parsed⟩ := @parse_amount_of_receipt rounding n text receipt
  obtain ⟨amount, rounded, near⟩ := accurate n small
  exact ⟨captured, amount, parsed.trans rounded,
    standsFor_of_written small (toFixed2_of_near small near)⟩

/-- No step from the text of a receipt to the stored row and the lookup moves a cent, and two
receipts agree in the rendered amount exactly when they print the same one. -/
theorem receipt_amounts_exact (accurate : Accurate rounding) :
    (∀ n < 10 ^ 14, ∀ text, IsReceipt n text → KeepsAmount rounding n text) ∧
      ∀ n < 10 ^ 14, ∀ m < 10 ^ 14, ∀ text other, IsReceipt n text → IsReceipt m other →
        ((parseWithRegex rounding text).amount.map Number.toFixed2 =
          (parseWithRegex rounding other).amount.map Number.toFixed2 ↔ n = m) := by
  refine ⟨fun n small text receipt => keepsAmount_of_receipt accurate small receipt, ?_⟩
  intro n small m small' text other receipt receipt'
  obtain ⟨amount, parsed, stands⟩ := (keepsAmount_of_receipt accurate small receipt).parsed
  obtain ⟨amount', parsed', stands'⟩ := (keepsAmount_of_receipt accurate small' receipt').parsed
  rw [parsed, parsed', Option.map_some, Option.map_some, Option.some_inj, stands.written,
    stands'.written]
  refine ⟨?_, ?_⟩
  · intro same
    have literals := congrArg (fun text => Decimal.literal text.toList) same
    simp only [String.toList_ofList, Decimal.literal_fixed2, Option.some_inj] at literals
    rw [div_left_inj' (by norm_num), Nat.cast_inj] at literals
    exact literals
  · intro same
    rw [same]

/-- The amount of a receipt for 1,234,567.89 under the rounding of the language. -/
theorem receipt_amount_exact_grouped :
    KeepsAmount Number.ofRat 123456789 "Paid ETB 1,234,567.89 to CBE".toList := by
  apply (receipt_amounts_exact accurate_ofRat).1 123456789 (by norm_num)
  have numeral : Decimal.grouped 1234567 = "1,234,567".toList := by
    simp only [Decimal.grouped, Nat.reduceLT, Nat.reduceDiv, Nat.reduceMod, ↓reduceIte]
    decide
  exact @IsReceipt.text 123456789 "Paid ETB ".toList ("1,234,567".toList ++ ".89".toList)
    " to CBE".toList (numeral ▸ IsNumeral.grouped) (by simp) (by simp)

end BirrTrack.Processing
