import BirrTrack.OcrService.Parser

/-! # Amounts in texts

`_normalize_amount` of a printed amount between texts without digits, such as currency words.
Of the surroundings only the marks are left, and they take part in the number:
`keepsAmount_iff` says which of them change it.
-/

namespace BirrTrack.OcrService

open Python

/-! ## What is left of a text -/

/-- The marks that the clean-up keeps. -/
def isMark (c : Char) : Bool := c = ',' ∨ c = '.' ∨ c = '-'

/-- What it keeps of a text without digits. -/
def marks (text : List Char) : List Char := text.filter isMark

/-- Commas count as decimal points where there is no point. -/
def DecimalComma (text : List Char) : Prop := ',' ∈ text ∧ '.' ∉ text

instance (text : List Char) : Decidable (DecimalComma text) :=
  inferInstanceAs (Decidable (_ ∧ _))

/-- What becomes of the commas of a text. -/
def normalizeCommas (decimal : Bool) (text : List Char) : List Char :=
  if decimal then text.map fun c => if c = ',' then '.' else c else text.filter (· ≠ ',')

/-- Commas are replaced one by one. -/
theorem normalizeCommas_append (decimal : Bool) (front back : List Char) :
    normalizeCommas decimal (front ++ back) =
      normalizeCommas decimal front ++ normalizeCommas decimal back := by
  cases decimal with
  | true => exact List.map_append
  | false => exact List.filter_append _ _

theorem normalizeCommas_of_isDigit (decimal : Bool) {digits : List Char}
    (all : ∀ c ∈ digits, c.isDigit = true) : normalizeCommas decimal digits = digits := by
  have notComma : ∀ c ∈ digits, c ≠ ',' := by
    rintro c member rfl
    exact absurd (all ',' member) (by decide)
  cases decimal with
  | true =>
      exact (List.map_congr_left fun c member => if_neg (notComma c member)).trans
        (List.map_id digits)
  | false => exact List.filter_eq_self.mpr fun c member => decide_eq_true (notComma c member)

/-- What becomes of commas before groups of digits. -/
theorem normalizeCommas_groups {groups : List (List Char)}
    (all : ∀ group ∈ groups, ∀ c ∈ group, c.isDigit = true) :
    normalizeCommas true (groups.flatMap (',' :: ·)) = groups.flatMap ('.' :: ·) ∧
      normalizeCommas false (groups.flatMap (',' :: ·)) = groups.flatten ∧
      normalizeCommas false (groups.flatMap ('.' :: ·)) = groups.flatMap ('.' :: ·) := by
  have comma : normalizeCommas true [','] = ['.'] ∧ normalizeCommas false [','] = [] ∧
      normalizeCommas false ['.'] = ['.'] := ⟨rfl, rfl, rfl⟩
  induction groups with
  | nil => exact ⟨rfl, rfl, rfl⟩
  | cons group groups ih =>
      have kept := fun decimal => normalizeCommas_of_isDigit decimal (all group List.mem_cons_self)
      obtain ⟨points, nothing, unchanged⟩ :=
        ih fun group member => all group (List.mem_cons_of_mem _ member)
      refine ⟨?_, ?_, ?_⟩
      · rw [List.flatMap_cons, ← List.singleton_append, normalizeCommas_append,
          normalizeCommas_append, comma.1, kept, points]
        rfl
      · rw [List.flatMap_cons, ← List.singleton_append, normalizeCommas_append,
          normalizeCommas_append, comma.2.1, kept, nothing]
        rfl
      · rw [List.flatMap_cons, ← List.singleton_append, normalizeCommas_append,
          normalizeCommas_append, comma.2.2, kept, unchanged]

/-- The code points of white space. -/
def spaces : List ℕ :=
  [9, 10, 11, 12, 13, 28, 29, 30, 31, 32, 0x85, 0xA0, 0x1680, 0x2000, 0x2001, 0x2002, 0x2003,
    0x2004, 0x2005, 0x2006, 0x2007, 0x2008, 0x2009, 0x200A, 0x2028, 0x2029, 0x202F, 0x205F, 0x3000]

/-- No white space is a digit. -/
theorem isDecimal_of_isSpace {c : Char} (space : isSpace c = true) : isDecimal c = false := by
  have none : ∀ n ∈ spaces, zeros.find? (fun first => first ≤ n ∧ n < first + 10) = none := by
    decide
  have listed : c.toNat ∈ spaces := by
    simp only [isSpace, decide_eq_true_eq] at space
    simp only [spaces, List.mem_cons, List.not_mem_nil, or_false]
    omega
  rw [isDecimal, decimal, none _ listed]
  rfl

theorem isMark_of_isSpace {c : Char} (space : isSpace c = true) : isMark c = false := by
  by_contra mark
  rw [Bool.not_eq_false] at mark
  rcases of_decide_eq_true mark with rfl | rfl | rfl <;> cases space

/-- White space at the ends of a text does not matter where none is kept. -/
theorem filter_strip {keeps : Char → Bool} (drops : ∀ c, isSpace c = true → keeps c = false)
    (text : List Char) : (strip text).filter keeps = text.filter keeps := by
  have dropped : ∀ text : List Char, (text.dropWhile isSpace).filter keeps = text.filter keeps := by
    intro text
    induction text with
    | nil => rfl
    | cons c text ih =>
        cases space : isSpace c with
        | true => rw [List.dropWhile_cons_of_pos space, ih,
            List.filter_cons_of_neg (by rw [drops c space]; exact Bool.false_ne_true)]
        | false => rw [List.dropWhile_cons_of_neg (by rw [space]; exact Bool.false_ne_true)]
  rw [strip, List.filter_reverse, dropped, ← List.filter_reverse, List.reverse_reverse, dropped]

/-- The digits and marks of a numeral, and the marks of the texts around it. -/
theorem amountCandidate_eq {front numeral back : List Char}
    (noDigit : ∀ c ∈ front, isDecimal c = false) (noDigit' : ∀ c ∈ back, isDecimal c = false)
    (kept : ∀ c ∈ numeral, c.isDigit = true ∨ isMark c = true) :
    amountCandidate (front ++ (numeral ++ back)) =
      normalizeCommas (decide (DecimalComma (marks front ++ (numeral ++ marks back))))
        (marks front ++ (numeral ++ marks back)) := by
  let keeps : Char → Bool := fun c => isDecimal c ∨ c = ',' ∨ c = '.' ∨ c = '-'
  have keeps_eq : ∀ c, keeps c = (isDecimal c || isMark c) := by
    intro c
    simp only [keeps, isMark, Bool.decide_or, Bool.decide_eq_true]
  have ofContext : ∀ text : List Char, (∀ c ∈ text, isDecimal c = false) →
      text.filter keeps = marks text := by
    intro text noDigit
    refine List.filter_congr fun c member => ?_
    rw [keeps_eq, noDigit c member, Bool.false_or]
  have ofNumeral : numeral.filter keeps = numeral := by
    rw [List.filter_eq_self]
    intro c member
    rw [keeps_eq, Bool.or_eq_true]
    exact (kept c member).imp_left isDecimal_of_isDigit
  have candidate : (strip (front ++ (numeral ++ back))).filter keeps =
      marks front ++ (numeral ++ marks back) := by
    rw [filter_strip, List.filter_append, List.filter_append, ofContext front noDigit, ofNumeral,
      ofContext back noDigit']
    intro c space
    rw [keeps_eq, isDecimal_of_isSpace space, isMark_of_isSpace space, Bool.false_or]
  have unfolded : amountCandidate (front ++ (numeral ++ back)) =
      if DecimalComma ((strip (front ++ (numeral ++ back))).filter keeps) then
        ((strip (front ++ (numeral ++ back))).filter keeps).map fun c => if c = ',' then '.' else c
      else ((strip (front ++ (numeral ++ back))).filter keeps).filter (· ≠ ',') := rfl
  rw [unfolded, candidate, normalizeCommas]
  by_cases decimal : DecimalComma (marks front ++ (numeral ++ marks back))
  · rw [if_pos decimal, if_pos (decide_eq_true decimal)]
  · rw [if_neg decimal, if_neg (by rwa [decide_eq_true_eq])]

/-! ## What `float` reads -/

section Readings

open Decimal

variable {lead : List Char} {groups : List (List Char)} {front back : List Char}

/-- Points and minus signs alone. -/
def PointsAndSigns (text : List Char) : Prop := ∀ c ∈ text, c = '.' ∨ c = '-'

/-- Digits with a point before each group, and what follows them. -/
def pointed (lead : List Char) (groups : List (List Char)) (back : List Char) : List Char :=
  lead ++ (groups.flatMap ('.' :: ·) ++ back)

/-- The number that such digits denote. -/
def reading (lead : List Char) : List (List Char) → List Char → Option ℚ
  | [], [] => some (value lead)
  | [], ['.'] => some (value lead)
  | [digits], [] => some (value (lead ++ digits) / 10 ^ digits.length)
  | _, _ => none

/-- The number that they denote after a point. -/
def fractionReading (lead : List Char) : List (List Char) → List Char → Option ℚ
  | [], [] => some (value lead / 10 ^ lead.length)
  | _, _ => none

theorem exponent_of_mark {c : Char} {rest : List Char} (mark : c = '.' ∨ c = '-') :
    exponent (c :: rest) = none := by
  rcases mark with rfl | rfl <;> rfl

/-- Points and signs start no exponent. -/
theorem exponent_marks (some : groups ≠ [] ∨ back ≠ []) (signs : PointsAndSigns back) :
    exponent (groups.flatMap ('.' :: ·) ++ back) = none := by
  cases groups with
  | cons digits groups => exact exponent_of_mark (Or.inl rfl)
  | nil =>
      cases back with
      | nil => exact absurd rfl (some.resolve_left fun absent => absent rfl)
      | cons c back => exact exponent_of_mark (signs c List.mem_cons_self)

theorem stops_marks (signs : PointsAndSigns back) :
    ∀ c ∈ (groups.flatMap ('.' :: ·) ++ back).head?, c.isDigit = false := by
  intro c first
  have mark : c = '.' ∨ c = '-' := by
    cases groups with
    | cons digits groups => exact Or.inl (Option.some.inj first).symm
    | nil => exact signs c (List.mem_of_mem_head? first)
  rcases mark with rfl | rfl <;> rfl

/-- What `float` reads of digit groups with points between them and signs behind. -/
theorem unsignedLiteral_pointed (nonempty : lead ≠ []) (digits : ∀ c ∈ lead, c.isDigit = true)
    (all : ∀ group ∈ groups, ∀ c ∈ group, c.isDigit = true) (signs : PointsAndSigns back) :
    unsignedLiteral (pointed lead groups back) = reading lead groups back := by
  cases groups with
  | nil =>
      cases back with
      | nil =>
          have whole := @unsignedLiteral_whole lead [] nonempty digits (by simp)
          simpa [pointed, reading, exponent] using whole
      | cons c back =>
          rcases signs c List.mem_cons_self with rfl | rfl
          · have later : PointsAndSigns back :=
              fun c member => signs c (List.mem_cons_of_mem _ member)
            have point := @unsignedLiteral_fraction lead [] back nonempty digits (by simp)
              (@stops_marks [] back later)
            cases back with
            | nil => simpa [pointed, reading, exponent] using point
            | cons c back =>
                rw [exponent_of_mark (later c List.mem_cons_self)] at point
                simpa [pointed, reading] using point
          · have whole := @unsignedLiteral_whole lead ('-' :: back) nonempty digits (by simp)
            rw [exponent_of_mark (Or.inr rfl)] at whole
            simpa [pointed, reading] using whole
  | cons group groups =>
      have fraction := @unsignedLiteral_fraction lead group (groups.flatMap ('.' :: ·) ++ back)
        nonempty digits (all group List.mem_cons_self) (stops_marks signs)
      have text : pointed lead (group :: groups) back =
          lead ++ '.' :: (group ++ (groups.flatMap ('.' :: ·) ++ back)) := by
        simp only [pointed, List.flatMap_cons, List.append_assoc, List.cons_append]
      rw [text, fraction]
      by_cases ends : groups = [] ∧ back = []
      · obtain ⟨rfl, rfl⟩ := ends
        simp [exponent, reading, div_eq_mul_inv]
      · rw [exponent_marks (not_and_or.mp ends) signs, Option.map_none]
        cases groups with
        | cons other groups => rfl
        | nil =>
            cases back with
            | nil => exact absurd ⟨rfl, rfl⟩ ends
            | cons c back => rfl

/-- What it reads with a point in front. -/
theorem unsignedLiteral_point (nonempty : lead ≠ []) (digits : ∀ c ∈ lead, c.isDigit = true)
    (signs : PointsAndSigns back) :
    unsignedLiteral ('.' :: pointed lead groups back) = fractionReading lead groups back := by
  obtain ⟨taken, dropped⟩ := takeWhile_isDigit_append digits (@stops_marks groups back signs)
  have fraction : fractionPart ('.' :: pointed lead groups back) =
      (lead, groups.flatMap ('.' :: ·) ++ back) := by
    simp only [fractionPart, ↓reduceIte, pointed, taken, dropped]
  have noWhole : ('.' :: pointed lead groups back).takeWhile Char.isDigit = [] := rfl
  have rest : ('.' :: pointed lead groups back).dropWhile Char.isDigit =
    '.' :: pointed lead groups back := rfl
  simp only [unsignedLiteral, noWhole, rest, fraction, nonempty, and_false, ↓reduceIte,
    List.nil_append]
  by_cases ends : groups = [] ∧ back = []
  · obtain ⟨rfl, rfl⟩ := ends
    simp [exponent, fractionReading, div_eq_mul_inv]
  · rw [exponent_marks (not_and_or.mp ends) signs, Option.map_none]
    cases groups with
    | cons other groups => rfl
    | nil =>
        cases back with
        | nil => exact absurd ⟨rfl, rfl⟩ ends
        | cons c back => rfl

/-- The number that they denote after marks. -/
def markedReading (front lead : List Char) (groups : List (List Char)) (back : List Char) :
    Option ℚ :=
  match front with
  | [] => reading lead groups back
  | ['.'] => fractionReading lead groups back
  | ['-'] => (reading lead groups back).map fun q => -q
  | ['-', '.'] => (fractionReading lead groups back).map fun q => -q
  | _ => none

/-- A second mark in front makes it no number. -/
theorem unsignedLiteral_marks {c : Char} {rest : List Char} (mark : c = '.' ∨ c = '-') :
    unsignedLiteral ('.' :: c :: rest) = none ∧ unsignedLiteral ('-' :: rest) = none := by
  rcases mark with rfl | rfl <;> exact ⟨rfl, rfl⟩

/-- With marks on both sides, `float` reads what `markedReading` says. -/
theorem literal_marked (nonempty : lead ≠ []) (digits : ∀ c ∈ lead, c.isDigit = true)
    (all : ∀ group ∈ groups, ∀ c ∈ group, c.isDigit = true) (signs : PointsAndSigns front)
    (signs' : PointsAndSigns back) :
    literal (front ++ pointed lead groups back) = markedReading front lead groups back := by
  have number := unsignedLiteral_pointed nonempty digits all signs'
  have point := @unsignedLiteral_point lead groups back nonempty digits signs'
  cases front with
  | nil =>
      rw [List.nil_append, markedReading, ← number, pointed]
      exact literal_of_isDigit (fun c first => digits c (List.mem_of_mem_head? first)) nonempty
  | cons c front =>
      rcases signs c List.mem_cons_self with rfl | rfl
      · cases front with
        | nil => exact point
        | cons d front =>
            exact (unsignedLiteral_marks (signs d (by simp))).1
      · have negated : ∀ rest, literal ('-' :: rest) = (unsignedLiteral rest).map fun q => -q :=
          fun _ => rfl
        rw [List.cons_append, negated]
        cases front with
        | nil => rw [List.nil_append, number]; rfl
        | cons d front =>
            rcases signs d (by simp) with rfl | rfl
            · cases front with
              | nil => exact congrArg (Option.map fun q => -q) point
              | cons e front =>
                  rw [List.cons_append, List.cons_append,
                    (unsignedLiteral_marks (signs e (by simp))).1]
                  rfl
            · rw [List.cons_append, (unsignedLiteral_marks (Or.inl rfl : '.' = '.' ∨ _)).2]
              rfl

/-- Whether `float` reads digits with points, and marks around them, as a number. -/
def ReadAsNumber (front numeral back : List Char) : Prop :=
  front ∈ [[], ['.'], ['-'], ['-', '.']] ∧ back ∈ [[], ['.']] ∧
    (front ++ (numeral ++ back)).count '.' ≤ 1

instance (front numeral back : List Char) : Decidable (ReadAsNumber front numeral back) :=
  inferInstanceAs (Decidable (_ ∧ _ ∧ _))

/-- The number without its sign. -/
def magnitude (front lead : List Char) (groups : List (List Char)) : ℚ :=
  if '.' ∈ front then value lead / 10 ^ lead.length
  else value (lead ++ groups.flatten) / 10 ^ groups.flatten.length

theorem magnitude_nonneg : 0 ≤ magnitude front lead groups := by
  unfold magnitude
  split <;> positivity

theorem count_eq_zero_of_isDigit {digits : List Char} (all : ∀ c ∈ digits, c.isDigit = true) :
    digits.count '.' = 0 := by
  rw [List.count_eq_zero]
  intro member
  exact absurd (all '.' member) (by decide)

/-- There are as many points as groups behind them. -/
theorem count_point (digits : ∀ c ∈ lead, c.isDigit = true)
    (all : ∀ group ∈ groups, ∀ c ∈ group, c.isDigit = true) :
    (lead ++ groups.flatMap ('.' :: ·)).count '.' = groups.length := by
  rw [List.count_append, count_eq_zero_of_isDigit digits, Nat.zero_add]
  induction groups with
  | nil => rfl
  | cons group groups ih =>
      rw [List.flatMap_cons, List.cons_append, List.count_cons_self, List.count_append,
        count_eq_zero_of_isDigit (all group List.mem_cons_self), Nat.zero_add,
        ih fun group member => all group (List.mem_cons_of_mem _ member), List.length_cons]

/-- Digits with one point at most, and that one not doubled at the end, are a number. -/
theorem reading_eq : reading lead groups back =
    if back ∈ [[], ['.']] ∧ groups.length + back.count '.' ≤ 1 then
      some (value (lead ++ groups.flatten) / 10 ^ groups.flatten.length : ℚ) else none := by
  unfold reading
  split
  next => simp
  next => simp
  next digits => simp
  next notWhole notPoint notFraction =>
    rw [if_neg]
    rintro ⟨allowed, few⟩
    rcases List.mem_pair.mp allowed with rfl | rfl
    · cases groups with
      | nil => exact notWhole rfl rfl
      | cons digits groups =>
          cases groups with
          | nil => exact notFraction digits rfl rfl
          | cons other groups => simp at few
    · cases groups with
      | nil => exact notPoint rfl rfl
      | cons digits groups => simp at few

/-- With a point in front there may be no other. -/
theorem fractionReading_eq : fractionReading lead groups back =
    if back ∈ [[], ['.']] ∧ 1 + (groups.length + back.count '.') ≤ 1 then
      some (value lead / 10 ^ lead.length : ℚ) else none := by
  unfold fractionReading
  split
  next => simp
  next notFraction =>
    rw [if_neg]
    rintro ⟨allowed, few⟩
    rcases List.mem_pair.mp allowed with rfl | rfl
    · cases groups with
      | nil => exact notFraction rfl rfl
      | cons digits groups => simp at few
    · simp at few

/-- The marked text is a number exactly if `ReadAsNumber` says so, and then of this magnitude and
sign. -/
theorem markedReading_eq (digits : ∀ c ∈ lead, c.isDigit = true)
    (all : ∀ group ∈ groups, ∀ c ∈ group, c.isDigit = true) :
    markedReading front lead groups back =
      if ReadAsNumber front (lead ++ groups.flatMap ('.' :: ·)) back then
        some (if '-' ∈ front then -magnitude front lead groups else magnitude front lead groups)
      else none := by
  have points : (lead ++ (groups.flatMap ('.' :: ·) ++ back)).count '.' =
      groups.length + back.count '.' := by
    rw [← List.append_assoc, List.count_append, count_point digits all]
  have counted : (front ++ (lead ++ (groups.flatMap ('.' :: ·) ++ back))).count '.' =
      front.count '.' + (groups.length + back.count '.') := by
    rw [List.count_append, points]
  simp only [ReadAsNumber, List.append_assoc, counted]
  unfold markedReading
  split
  next => rw [reading_eq]; simp [magnitude]
  next => rw [fractionReading_eq]; simp [magnitude]
  next => rw [reading_eq]; simp [magnitude, apply_ite]
  next => rw [fractionReading_eq]; simp [magnitude, apply_ite]
  next none point minus both =>
    rw [if_neg]
    rintro ⟨allowed, -⟩
    simp only [List.mem_cons, List.not_mem_nil, or_false] at allowed
    tauto

theorem toAscii_of_pointsAndSigns {text : List Char} (signs : PointsAndSigns text) :
    text.map toAscii = text := by
  refine (List.map_congr_left fun c member => ?_).trans (List.map_id text)
  rcases signs c member with rfl | rfl <;> rfl

theorem toAscii_of_digits {text : List Char} (digits : ∀ c ∈ text, c.isDigit = true) :
    text.map toAscii = text :=
  (List.map_congr_left fun c member => toAscii_of_isDigit (digits c member)).trans
    (List.map_id text)

/-- The marked text is in ASCII already. -/
theorem toAscii_marked (digits : ∀ c ∈ lead, c.isDigit = true)
    (all : ∀ group ∈ groups, ∀ c ∈ group, c.isDigit = true) (signs : PointsAndSigns front)
    (signs' : PointsAndSigns back) :
    (front ++ pointed lead groups back).map toAscii = front ++ pointed lead groups back := by
  have mapped : (groups.flatMap ('.' :: ·)).map toAscii = groups.flatMap ('.' :: ·) := by
    induction groups with
    | nil => rfl
    | cons group groups ih =>
        have point : toAscii '.' = '.' := rfl
        rw [List.flatMap_cons, List.map_append, List.map_cons, point,
          toAscii_of_digits (all group List.mem_cons_self),
          ih fun group member => all group (List.mem_cons_of_mem _ member)]
  rw [pointed, List.map_append, List.map_append, List.map_append, toAscii_of_pointsAndSigns signs,
    toAscii_of_digits digits, mapped, toAscii_of_pointsAndSigns signs']

/-- What `float` makes of digits and points between marks. -/
theorem ofText_marked (nonempty : lead ≠ []) (digits : ∀ c ∈ lead, c.isDigit = true)
    (all : ∀ group ∈ groups, ∀ c ∈ group, c.isDigit = true) (signs : PointsAndSigns front)
    (signs' : PointsAndSigns back) :
    Double.ofText (front ++ pointed lead groups back) =
      if ReadAsNumber front (lead ++ groups.flatMap ('.' :: ·)) back then
        some (.of (decide ('-' ∈ front)) (magnitude front lead groups)) else none := by
  have nonneg := @magnitude_nonneg lead groups front
  rw [Double.ofText, toAscii_marked digits all signs signs',
    literal_marked nonempty digits all signs signs', markedReading_eq digits all]
  split
  next number =>
    have negative : (front ++ pointed lead groups back).head? = some '-' ↔ '-' ∈ front := by
      obtain ⟨c, lead, rfl⟩ := List.exists_cons_of_ne_nil nonempty
      have digit : c ≠ '-' := by
        rintro rfl
        exact absurd (digits '-' List.mem_cons_self) (by decide)
      have fronts := number.1
      simp only [List.mem_cons, List.not_mem_nil, or_false] at fronts
      rcases fronts with rfl | rfl | rfl | rfl <;> simp [pointed, digit]
    rw [Option.map_some, decide_eq_decide.mpr negative]
    congr 2
    split
    next => rw [abs_neg, abs_of_nonneg nonneg]
    next => exact abs_of_nonneg nonneg
  next => rfl

end Readings

/-! ## Rendered amounts -/

section Rendered

open Decimal

/-- The decimals of a number of hundredths; trailing zeros can be left out. -/
inductive RenderedDecimals (cents : ℕ) : List Char → Prop where
  | two : RenderedDecimals cents ('.' :: padded 2 cents)
  | one (tenths : cents % 10 = 0) : RenderedDecimals cents ('.' :: padded 1 (cents / 10))
  | none (whole : cents % 100 = 0) : RenderedDecimals cents []

/-- The texts of a number of hundredths, plain or with grouped thousands. -/
inductive RenderedAmount (cents : ℕ) : List Char → Prop where
  | plain {decimals : List Char} (rendered : RenderedDecimals cents decimals) :
      RenderedAmount cents (Nat.toDigits 10 (cents / 100) ++ decimals)
  | grouped {decimals : List Char} (rendered : RenderedDecimals cents decimals) :
      RenderedAmount cents (Decimal.grouped (cents / 100) ++ decimals)

variable {cents : ℕ} {text : List Char}

/-- A rendered amount is digit groups with commas between them, and decimals. -/
theorem RenderedAmount.exists_groups (rendered : RenderedAmount cents text) :
    ∃ (lead : List Char) (groups : List (List Char)) (decimals : List Char),
      text = lead ++ (groups.flatMap (',' :: ·) ++ decimals) ∧ RenderedDecimals cents decimals ∧
      lead ≠ [] ∧ (∀ c ∈ lead, c.isDigit = true) ∧
      (∀ group ∈ groups, group ≠ [] ∧ ∀ c ∈ group, c.isDigit = true) ∧
      value (lead ++ groups.flatten) = cents / 100 := by
  cases rendered with
  | @plain decimals rendered =>
      exact ⟨Nat.toDigits 10 (cents / 100), [], decimals, rfl, rendered, Nat.toDigits_ne_nil,
        isDigit_of_mem_toDigits, by simp, by simp⟩
  | @grouped decimals rendered =>
      obtain ⟨lead, groups, shape, nonempty, -, digits, all⟩ := grouped_shape (cents / 100)
      have whole : lead ++ groups.flatten = Nat.toDigits 10 (cents / 100) := by
        have dropped : normalizeCommas false (Decimal.grouped (cents / 100)) =
          Nat.toDigits 10 (cents / 100) := grouped_filter (cents / 100)
        rwa [shape, normalizeCommas_append, normalizeCommas_of_isDigit false digits,
          (normalizeCommas_groups fun group member => (all group member).2).2.1] at dropped
      refine ⟨lead, groups, decimals, by rw [shape, List.append_assoc], rendered, nonempty, digits,
        fun group member => ⟨?_, (all group member).2⟩, by rw [whole, value_toDigits]⟩
      exact List.ne_nil_of_length_eq_add_one (all group member).1

/-- The decimals are no group or one behind a point. -/
theorem RenderedDecimals.exists_groups {decimals : List Char}
    (rendered : RenderedDecimals cents decimals) :
    ∃ groups : List (List Char), decimals = groups.flatMap ('.' :: ·) ∧
      (∀ group ∈ groups, ∀ c ∈ group, c.isDigit = true) ∧
      (cents : ℚ) / 100 =
        (cents / 100 : ℕ) + value groups.flatten / 10 ^ groups.flatten.length := by
  have places : ∀ width n : ℕ, [padded width n].flatten = padded width n := by simp
  have split : (cents : ℚ) = 100 * (cents / 100 : ℕ) + (cents % 100 : ℕ) := by
    exact_mod_cast (Nat.div_add_mod cents 100).symm
  cases rendered with
  | two =>
      refine ⟨[padded 2 cents], (List.append_nil _).symm, ?_, ?_⟩
      · intro group member
        rw [List.mem_singleton.mp member]
        exact fun c => isDigit_of_mem_padded
      · rw [places, value_padded, length_padded, split]
        norm_num
        ring
  | one tenths =>
      refine ⟨[padded 1 (cents / 10)], (List.append_nil _).symm, ?_, ?_⟩
      · intro group member
        rw [List.mem_singleton.mp member]
        exact fun c => isDigit_of_mem_padded
      · have last : cents % 100 = 10 * (cents / 10 % 10) := by omega
        rw [places, value_padded, length_padded, split, last]
        push_cast
        ring
  | none whole =>
      refine ⟨[], rfl, by simp, ?_⟩
      rw [split, whole]
      simp [value]

theorem RenderedAmount.isDigit_or_isMark (rendered : RenderedAmount cents text) :
    ∀ c ∈ text, c.isDigit = true ∨ isMark c = true := by
  obtain ⟨lead, groups, decimals, rfl, ofDecimals, -, digits, all, -⟩ := rendered.exists_groups
  obtain ⟨places, rfl, allPlaces, -⟩ := ofDecimals.exists_groups
  intro c member
  simp only [List.mem_append, List.mem_flatMap, List.mem_cons] at member
  rcases member with inLead | ⟨group, inGroups, rfl | inGroup⟩ | ⟨group, inPlaces, rfl | inGroup⟩
  · exact Or.inl (digits c inLead)
  · exact Or.inr rfl
  · exact Or.inl ((all group inGroups).2 c inGroup)
  · exact Or.inr rfl
  · exact Or.inl (allPlaces group inPlaces c inGroup)

/-- The digits that are left of a rendered amount, and what they have to do with it. -/
structure PointedAmount (cents : ℕ) (text : List Char) (decimal : Bool) (lead : List Char)
    (groups : List (List Char)) : Prop where
  normalized : normalizeCommas decimal text = lead ++ groups.flatMap ('.' :: ·)
  nonempty : lead ≠ []
  digits : ∀ c ∈ lead, c.isDigit = true
  all : ∀ group ∈ groups, ∀ c ∈ group, c.isDigit = true
  moved : ',' ∈ text ∧ decimal = true → groups.flatten ≠ [] ∧
    (cents : ℚ) / 100 = value (lead ++ groups.flatten)
  unmoved : ¬ (',' ∈ text ∧ decimal = true) → (cents : ℚ) / 100 = magnitude [] lead groups

/-- A comma before a group is either dropped or becomes a point. -/
theorem RenderedAmount.exists_pointed (rendered : RenderedAmount cents text) {decimal : Bool}
    (noPoint : decimal = true → '.' ∉ text) :
    ∃ lead groups, PointedAmount cents text decimal lead groups := by
  obtain ⟨lead, groups, decimals, rfl, ofDecimals, nonempty, digits, all, whole⟩ :=
    rendered.exists_groups
  obtain ⟨places, rfl, allPlaces, number⟩ := ofDecimals.exists_groups
  have allGroups : ∀ group ∈ groups, ∀ c ∈ group, c.isDigit = true :=
    fun group member => (all group member).2
  cases decimal with
  | true =>
      have absent : places = [] := by
        cases places with
        | nil => rfl
        | cons group places => exact absurd (by simp) (noPoint rfl)
      subst absent
      have amount : (cents : ℚ) / 100 = value (lead ++ groups.flatten) := by
        rw [number, whole]
        simp [value]
      refine ⟨lead, groups, ?_, nonempty, digits, allGroups, fun comma => ⟨?_, amount⟩,
        fun noComma => ?_⟩
      · rw [List.flatMap_nil, List.append_nil, normalizeCommas_append,
          normalizeCommas_of_isDigit true digits, (normalizeCommas_groups allGroups).1]
      · cases groups with
        | nil =>
            have inLead : ',' ∈ lead := by simpa using comma.1
            exact absurd (digits ',' inLead) (by decide)
        | cons group groups =>
            rw [List.flatten_cons]
            exact List.append_ne_nil_of_left_ne_nil (all group List.mem_cons_self).1 _
      · cases groups with
        | nil => rw [amount]; simp [magnitude]
        | cons group groups => exact absurd ⟨by simp, rfl⟩ noComma
  | false =>
      refine ⟨lead ++ groups.flatten, places, ?_, List.append_ne_nil_of_left_ne_nil nonempty _, ?_,
        allPlaces, fun comma => absurd comma.2 Bool.false_ne_true, fun _ => ?_⟩
      · rw [normalizeCommas_append, normalizeCommas_append, normalizeCommas_of_isDigit false digits,
          (normalizeCommas_groups allGroups).2.1, (normalizeCommas_groups allPlaces).2.2,
          List.append_assoc]
      · intro c member
        rcases List.mem_append.mp member with inLead | inGroups
        · exact digits c inLead
        · obtain ⟨group, inGroups, inGroup⟩ := List.mem_flatten.mp inGroups
          exact allGroups group inGroups c inGroup
      · rw [number, magnitude, if_neg List.not_mem_nil, value_append, whole]
        have power : (10 : ℚ) ^ places.flatten.length ≠ 0 := by positivity
        push_cast
        field_simp

theorem magnitude_eq_zero {lead : List Char} {groups : List (List Char)} (front : List Char)
    (zero : value (lead ++ groups.flatten) = 0) : magnitude front lead groups = 0 := by
  have zeroLead : value lead = 0 := by
    rw [value_append] at zero
    have scaled : 10 ^ groups.flatten.length * value lead = 0 := by omega
    exact (Nat.mul_eq_zero.mp scaled).resolve_left (by positivity)
  unfold magnitude
  split
  next => rw [zeroLead, Nat.cast_zero, zero_div]
  next => rw [zero, Nat.cast_zero, zero_div]

/-- A point before digits divides their number by ten at least. -/
theorem div_le_tenth {digits : List Char} (some : digits ≠ []) (n : ℕ) :
    (n : ℚ) / 10 ^ digits.length ≤ n / 10 := by
  have power : (10 : ℚ) ^ 1 ≤ 10 ^ digits.length :=
    pow_le_pow_right₀ (by norm_num) (List.length_pos_of_ne_nil some)
  rw [pow_one] at power
  gcongr

theorem pointsAndSigns_marks (decimal : Bool) (text : List Char) :
    PointsAndSigns (normalizeCommas decimal (marks text)) := by
  have mark : ∀ c ∈ marks text, c = ',' ∨ c = '.' ∨ c = '-' :=
    fun c member => of_decide_eq_true (List.mem_filter.mp member).2
  intro c member
  cases decimal with
  | true =>
      obtain ⟨d, inMarks, rfl⟩ := List.mem_map.mp member
      rcases mark d inMarks with rfl | rfl | rfl <;> simp
  | false =>
      obtain ⟨inMarks, notComma⟩ := List.mem_filter.mp member
      exact (mark c inMarks).resolve_left (of_decide_eq_true notComma)

/-- Whether a text is read as exactly the amount, or as none at all. -/
def KeepsAmount (isPrintable : Char → Bool) (cents : ℕ) (text : List Char) : Prop :=
  normalizeAmount isPrintable (.str text) = .ok none ∨
  ∃ x v, normalizeAmount isPrintable (.str text) = .ok (some x) ∧
    Binary64.round ((cents : ℚ) / 100) = some v ∧ x.value = some v

/-- Between these marks a numeral is read as another number. -/
def Misread (cents : ℕ) (numeral front back : List Char) : Prop :=
  let decimal : Bool := DecimalComma (front ++ (numeral ++ back))
  let sign := normalizeCommas decimal front
  ReadAsNumber sign (normalizeCommas decimal numeral) (normalizeCommas decimal back) ∧
    (0 < cents ∧ (sign ≠ [] ∨ ',' ∈ numeral ∧ decimal = true) ∨
      Binary64.overflow ≤ (cents : ℚ) / 100)

/-- A positive amount is not its negation, nor a tenth of it or less. -/
theorem value_of_ne {negative : Bool} {magnitude amount v : ℚ} (nonneg : 0 ≤ magnitude)
    (positive : 1 / 100 ≤ amount)
    (other : negative = true ∨ magnitude ≤ amount / 10 ∧ 1 ≤ amount)
    (rounded : Binary64.round amount = some v) : (Double.of negative magnitude).value ≠ some v := by
  intro same
  rw [Double.value_of, Option.map_eq_some_iff] at same
  obtain ⟨w, rounded', same⟩ := same
  cases negative with
  | true =>
      have tiny : (2 : ℚ) ^ (-1022 : ℤ) ≤ 1 / 128 :=
        (zpow_le_zpow_right₀ one_le_two (by decide : (-1022 : ℤ) ≤ -7)).trans (by norm_num)
      have above := Binary64.round_pos (tiny.trans (by linarith)) rounded
      have below := Binary64.round_nonneg nonneg rounded'
      rw [if_pos rfl] at same
      linarith
  | false =>
      obtain ⟨tenth, normal⟩ := other.resolve_left Bool.false_ne_true
      rw [← same] at rounded
      exact Binary64.round_ne_of_le_tenth nonneg tenth normal rounded rounded'

section Pointed

variable {decimal : Bool} {front lead back : List Char} {groups : List (List Char)} {v : ℚ}

/-- A positive amount is not what its digits denote after a mark, or with a point for a comma. -/
theorem PointedAmount.value_ne (amount : PointedAmount cents text decimal lead groups)
    (number : ReadAsNumber front (normalizeCommas decimal text) back) (positive : 0 < cents)
    (misplaced : front ≠ [] ∨ ',' ∈ text ∧ decimal = true)
    (rounded : Binary64.round ((cents : ℚ) / 100) = some v) :
    (Double.of (decide ('-' ∈ front)) (magnitude front lead groups)).value ≠ some v := by
  have least : (1 : ℚ) ≤ cents := by exact_mod_cast positive
  have atLeastOne : ∀ {n : ℕ}, (cents : ℚ) / 100 = n → (1 : ℚ) ≤ (cents : ℚ) / 100 := by
    intro n whole
    have some : (0 : ℚ) < n := by
      rw [← whole]
      positivity
    rw [whole]
    exact_mod_cast some
  refine value_of_ne magnitude_nonneg (by linarith) ?_ rounded
  obtain ⟨fronts, -, points⟩ := number
  simp only [List.mem_cons, List.not_mem_nil, or_false] at fronts
  rcases fronts with rfl | rfl | rfl | rfl
  · obtain ⟨some, whole⟩ := amount.moved (misplaced.resolve_left fun marked => marked rfl)
    refine Or.inr ⟨?_, atLeastOne whole⟩
    rw [magnitude, if_neg List.not_mem_nil, whole]
    exact div_le_tenth some _
  · have none : groups = [] := by
      rw [amount.normalized, List.count_append, List.count_append,
        count_point amount.digits amount.all] at points
      simp only [List.count_singleton_self] at points
      exact List.length_eq_zero_iff.mp (by omega)
    subst none
    have whole := amount.unmoved fun moved => (amount.moved moved).1 rfl
    rw [magnitude, if_neg List.not_mem_nil, List.flatten_nil, List.append_nil, List.length_nil,
      pow_zero, div_one] at whole
    refine Or.inr ⟨?_, atLeastOne whole⟩
    rw [magnitude, if_pos List.mem_cons_self, whole]
    exact div_le_tenth amount.nonempty _
  · exact Or.inl rfl
  · exact Or.inl rfl

/-- Where nothing displaces the amount, the number is the amount. -/
theorem PointedAmount.value_eq (amount : PointedAmount cents text decimal lead groups)
    (placed : ¬ (0 < cents ∧ (front ≠ [] ∨ ',' ∈ text ∧ decimal = true)))
    (rounded : Binary64.round ((cents : ℚ) / 100) = some v) :
    (Double.of (decide ('-' ∈ front)) (magnitude front lead groups)).value = some v := by
  rw [Double.value_of]
  rcases Nat.eq_zero_or_pos cents with rfl | positive
  · have zero : value (lead ++ groups.flatten) = 0 := by
      by_cases moved : ',' ∈ text ∧ decimal = true
      · have whole := (amount.moved moved).2
        rw [Nat.cast_zero, zero_div] at whole
        exact_mod_cast whole.symm
      · have whole := amount.unmoved moved
        have power : (10 : ℚ) ^ groups.flatten.length ≠ 0 := by positivity
        rw [Nat.cast_zero, zero_div, magnitude, if_neg List.not_mem_nil, eq_comm,
          div_eq_zero_iff, or_iff_left power] at whole
        exact_mod_cast whole
    rw [Nat.cast_zero, zero_div] at rounded
    rw [magnitude_eq_zero front zero, rounded, Option.map_some]
    obtain rfl : (0 : ℚ) = v := Option.some.inj rounded
    simp
  · obtain ⟨unmarked, unmoved⟩ := not_or.mp (not_and.mp placed positive)
    obtain rfl := not_not.mp unmarked
    rw [← amount.unmoved unmoved, rounded]
    rfl

/-- The number is the amount exactly if nothing displaces it and it is not too large. -/
theorem PointedAmount.exists_value_iff (amount : PointedAmount cents text decimal lead groups)
    (number : ReadAsNumber front (normalizeCommas decimal text) back) :
    (∃ v, Binary64.round ((cents : ℚ) / 100) = some v ∧
      (Double.of (decide ('-' ∈ front)) (magnitude front lead groups)).value = some v) ↔
    ¬ (0 < cents ∧ (front ≠ [] ∨ ',' ∈ text ∧ decimal = true) ∨
      Binary64.overflow ≤ (cents : ℚ) / 100) := by
  have nonneg : (0 : ℚ) ≤ (cents : ℚ) / 100 := by positivity
  rw [← abs_of_nonneg nonneg, ← Binary64.round_eq_none_iff, abs_of_nonneg nonneg, not_or]
  constructor
  · rintro ⟨v, rounded, same⟩
    refine ⟨fun misplaced => ?_, by rw [rounded]; exact Option.some_ne_none v⟩
    exact amount.value_ne number misplaced.1 misplaced.2 rounded same
  · rintro ⟨placed, small⟩
    obtain ⟨v, rounded⟩ := Option.ne_none_iff_exists'.mp small
    exact ⟨v, rounded, amount.value_eq placed rounded⟩

end Pointed

/-- The amount is read as itself or not at all unless the marks around it, and the commas within
it, misplace its point or its sign, or it is too large. -/
theorem keepsAmount_iff (isPrintable : Char → Bool) {front back : List Char}
    (rendered : RenderedAmount cents text) (noDigit : ∀ c ∈ front, isDecimal c = false)
    (noDigit' : ∀ c ∈ back, isDecimal c = false) :
    KeepsAmount isPrintable cents (front ++ (text ++ back)) ↔
      ¬ Misread cents text (marks front) (marks back) := by
  let decimal : Bool := DecimalComma (marks front ++ (text ++ marks back))
  let sign := normalizeCommas decimal (marks front)
  have noPoint : decimal = true → '.' ∉ text := by
    intro comma member
    exact (of_decide_eq_true comma).2 (by simp [member])
  obtain ⟨lead, groups, amount⟩ := rendered.exists_pointed noPoint
  have read : normalizeAmount isPrintable (.str (front ++ (text ++ back))) =
      .ok (if ReadAsNumber sign (normalizeCommas decimal text)
          (normalizeCommas decimal (marks back)) then
        some (.of (decide ('-' ∈ sign)) (magnitude sign lead groups)) else none) := by
    have candidate := amountCandidate_eq noDigit noDigit' rendered.isDigit_or_isMark
    rw [normalizeCommas_append, normalizeCommas_append, amount.normalized,
      List.append_assoc] at candidate
    rw [amount.normalized, ← ofText_marked amount.nonempty amount.digits amount.all
      (pointsAndSigns_marks _ _) (pointsAndSigns_marks _ _)]
    exact congrArg (fun text => Except.ok (Double.ofText text)) candidate
  by_cases number : ReadAsNumber sign (normalizeCommas decimal text)
      (normalizeCommas decimal (marks back))
  · rw [if_pos number] at read
    rw [Misread, and_iff_right number, ← amount.exists_value_iff number]
    simp only [KeepsAmount, read, Except.ok.injEq, reduceCtorEq, Option.some.injEq, false_or]
    constructor
    · rintro ⟨x, v, rfl, exactly⟩
      exact ⟨v, exactly⟩
    · rintro ⟨v, exactly⟩
      exact ⟨_, v, rfl, exactly⟩
  · rw [if_neg number] at read
    exact iff_of_true (Or.inl read) fun misread => number misread.1

theorem keepsAmount_birr :
    KeepsAmount (fun _ => true) 125050
      ("ETB ".toList ++ ("1,250.50".toList ++ " (Birr)".toList)) := by
  have written : Decimal.grouped 1250 ++ '.' :: padded 2 125050 = "1,250.50".toList := by
    simp [Decimal.grouped]
    decide
  have rendered : RenderedAmount 125050 "1,250.50".toList := written ▸ RenderedAmount.grouped .two
  refine (keepsAmount_iff (fun _ => true) rendered (by decide) (by decide)).mpr ?_
  rintro ⟨-, ⟨-, misplaced⟩ | large⟩
  · exact absurd misplaced (by decide)
  · have million : (2 : ℚ) ^ 20 ≤ 2 ^ 1023 := pow_le_pow_right₀ one_le_two (by decide)
    have bound := Binary64.le_largest.trans Binary64.largest_lt_overflow.le
    have small := (million.trans bound).trans large
    norm_num at small

/-- A whole amount with grouped thousands is read as one with decimals. -/
theorem not_keepsAmount : RenderedAmount 125000 "1,250".toList ∧
    ¬ KeepsAmount (fun _ => true) 125000 "1,250".toList := by
  have written : Decimal.grouped 1250 ++ [] = "1,250".toList := by
    simp [Decimal.grouped]
    decide
  have unmarked : PointsAndSigns [] := fun c member => absurd member List.not_mem_nil
  have point := @ofText_marked ['1'] [['2', '5', '0']] [] [] (by decide) (by decide) (by decide)
    unmarked unmarked
  have number : magnitude [] ['1'] [['2', '5', '0']] = 1250 / 1000 := by
    have digits : value ['1', '2', '5', '0'] = 1250 := by decide
    simp [magnitude, digits]
    norm_num
  rw [if_pos (by decide), number] at point
  have read : normalizeAmount (fun _ => true) (.str "1,250".toList) =
    .ok (some (.of false (1250 / 1000))) := congrArg Except.ok point
  refine ⟨written ▸ RenderedAmount.grouped (.none rfl), ?_⟩
  rw [KeepsAmount, read]
  rintro (none | ⟨x, v, same, rounded, exactly⟩)
  · cases none
  · rw [← Option.some.inj (Except.ok.inj same)] at exactly
    exact value_of_ne (by norm_num) (by norm_num) (Or.inr ⟨by norm_num, by norm_num⟩) rounded
      exactly

end Rendered

end BirrTrack.OcrService
