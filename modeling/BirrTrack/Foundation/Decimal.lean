import Mathlib.Data.Rat.Floor
import Mathlib.Algebra.Order.Field.Power
import Mathlib.Tactic.Linarith
import Mathlib.Tactic.Ring
import Mathlib.Tactic.FieldSimp
import Mathlib.Tactic.NormNum

/-! # Decimal numerals

Digit texts of natural numbers (`Nat.toDigits`, `padded`), the decimal literals
that number parsers accept (`literal`), amounts written with two decimals
(`fixed2`, and `grouped` thousands), and the nearest multiple of one hundredth
(`hundredths`).
-/

namespace Decimal

theorem toNat_of_isDigit {c : Char} (isDigit : c.isDigit = true) : 48 ≤ c.toNat ∧ c.toNat ≤ 57 := by
  simp only [Char.isDigit, Bool.and_eq_true, decide_eq_true_eq, ge_iff_le,
    UInt32.le_iff_toNat_le] at isDigit
  exact isDigit

/-- A nonempty text of digits begins with one, whatever follows it. -/
theorem exists_digit_cons {digits rest : List Char} (some : digits ≠ [])
    (all : ∀ c ∈ digits, c.isDigit = true) :
    ∃ c others, digits ++ rest = c :: others ∧ c.isDigit = true := by
  obtain ⟨c, others, rfl⟩ := List.exists_cons_of_ne_nil some
  exact ⟨c, others ++ rest, rfl, all c List.mem_cons_self⟩

/-- The number a digit text denotes. -/
def value (digits : List Char) : ℕ := Nat.ofDigitChars 10 digits 0

/-- Digits put in front count by the power of ten of those behind. -/
theorem value_append (front back : List Char) :
    value (front ++ back) = 10 ^ back.length * value front + value back := by
  rw [value, Nat.ofDigitChars_append, Nat.ofDigitChars_eq_ofDigitChars_zero]
  rfl

@[simp] theorem value_toDigits (n : ℕ) : value (Nat.toDigits 10 n) = n :=
  Nat.ofDigitChars_ten_toDigits

theorem value_digitChar {digit : ℕ} (small : digit < 10) : value [digit.digitChar] = digit := by
  rw [value, Nat.ofDigitChars_cons_digitChar_of_lt_ten small, Nat.ofDigitChars_nil, Nat.mul_zero,
    Nat.zero_add]

/-- Zeros are worth nothing. -/
theorem value_replicate_zero (count : ℕ) : value (List.replicate count '0') = 0 := by
  rw [value, Nat.ofDigitChars_replicate_zero, Nat.mul_zero]

/-- Digits are worth less than the power of ten of their number. -/
theorem value_lt {digits : List Char} (all : ∀ c ∈ digits, c.isDigit = true) :
    value digits < 10 ^ digits.length := by
  induction digits with
  | nil => exact Nat.one_pos
  | cons c digits ih =>
      obtain ⟨low, high⟩ := toNat_of_isDigit (all c List.mem_cons_self)
      have first : value [c] = c.toNat - 48 := by simp [value, Nat.ofDigitChars]
      have rest := ih fun d member => all d (List.mem_cons_of_mem c member)
      have split := value_append [c] digits
      rw [List.singleton_append, first] at split
      rw [split, List.length_cons, pow_succ]
      have most : 10 ^ digits.length * (c.toNat - 48) ≤ 10 ^ digits.length * 9 :=
        Nat.mul_le_mul_left _ (by omega)
      omega

/-- The first digits behind a point, filled up with zeros, are the whole parts of the fraction. -/
theorem value_take_append_zeros {digits : List Char} (all : ∀ c ∈ digits, c.isDigit = true)
    (count : ℕ) :
    value ((digits ++ List.replicate count '0').take count) =
      value digits * 10 ^ count / 10 ^ digits.length := by
  have whole : value (digits ++ List.replicate count '0') = value digits * 10 ^ count := by
    rw [value_append, value_replicate_zero, List.length_replicate, add_zero, mul_comm]
  have dropped : ((digits ++ List.replicate count '0').drop count).length = digits.length := by
    rw [List.length_drop, List.length_append, List.length_replicate, Nat.add_sub_cancel]
  have small : value ((digits ++ List.replicate count '0').drop count) < 10 ^ digits.length := by
    rw [← dropped]
    refine value_lt fun c member => ?_
    rcases List.mem_append.mp (List.mem_of_mem_drop member) with here | zero
    · exact all c here
    · rw [(List.mem_replicate.mp zero).2]
      rfl
  have split := value_append ((digits ++ List.replicate count '0').take count)
    ((digits ++ List.replicate count '0').drop count)
  rw [List.take_append_drop, dropped, whole] at split
  rw [split, Nat.mul_add_div (by positivity), Nat.div_eq_of_lt small, add_zero]

/-- The last `width` digits of a number, with leading zeros. -/
def padded : ℕ → ℕ → List Char
  | 0, _ => []
  | width + 1, n => padded width (n / 10) ++ [(n % 10).digitChar]

theorem isDigit_of_mem_toDigits {n : ℕ} : ∀ c ∈ Nat.toDigits 10 n, c.isDigit = true :=
  fun _ member => Nat.isDigit_of_mem_toDigits (by decide) (by decide) member

@[simp] theorem length_padded (width n : ℕ) : (padded width n).length = width := by
  induction width generalizing n with
  | zero => rfl
  | succ width ih => rw [padded, List.length_append, ih, List.length_singleton]

/-- A padded number consists of digits. -/
theorem isDigit_of_mem_padded {width n : ℕ} {c : Char} (member : c ∈ padded width n) :
    c.isDigit = true := by
  induction width generalizing n with
  | zero => exact (List.not_mem_nil member).elim
  | succ width ih =>
      rw [padded, List.mem_append, List.mem_singleton] at member
      rcases member with earlier | rfl
      · exact ih earlier
      · rw [Nat.isDigit_digitChar]
        exact decide_eq_true (Nat.mod_lt n (by decide))

/-- Padding keeps the number up to the power of ten of the width. -/
theorem value_padded (width n : ℕ) : value (padded width n) = n % 10 ^ width := by
  induction width generalizing n with
  | zero => rw [Nat.pow_zero, Nat.mod_one]; rfl
  | succ width ih =>
      rw [padded, value_append, ih, value_digitChar (Nat.mod_lt n (by decide)), Nat.pow_succ',
        Nat.mod_mul, List.length_singleton, Nat.pow_one, Nat.add_comm]

/-- A number that fits its width is read back. -/
theorem value_padded_of_lt {width n : ℕ} (fits : n < 10 ^ width) : value (padded width n) = n := by
  rw [value_padded, Nat.mod_eq_of_lt fits]

/-- Leading digits followed by padded ones are the digits of the whole number. -/
theorem toDigits_append_padded {high : ℕ} (positive : 0 < high) (width low : ℕ)
    (fits : low < 10 ^ width) :
    Nat.toDigits 10 high ++ padded width low = Nat.toDigits 10 (10 ^ width * high + low) := by
  induction width generalizing low with
  | zero =>
      have none : low = 0 := by simpa using fits
      rw [padded, List.append_nil, none, Nat.pow_zero, Nat.one_mul, Nat.add_zero]
  | succ width ih =>
      have shorter : low / 10 < 10 ^ width := by
        rw [Nat.div_lt_iff_lt_mul (by decide), ← Nat.pow_succ]; exact fits
      have more : 0 < 10 ^ width * high + low / 10 :=
        Nat.add_pos_left (Nat.mul_pos (Nat.pow_pos (by decide)) positive) _
      rw [padded, ← List.append_assoc, ih _ shorter,
        ← Nat.toDigits_of_lt_base (Nat.mod_lt low (by decide)),
        Nat.toDigits_append_toDigits (by decide) more (Nat.mod_lt low (by decide))]
      congr 1
      have split := Nat.div_add_mod low 10
      rw [Nat.pow_succ']
      linarith

/-! ## Decimal literals -/

/-- A nonempty text of digits only, as a number. -/
def natural (text : List Char) : Option ℕ :=
  if text ≠ [] ∧ text.all Char.isDigit then some (value text) else none

/-- Digits with an optional sign, as an integer. -/
def integer : List Char → Option ℤ
  | [] => none
  | sign :: digits =>
      if sign = '-' then (natural digits).map fun n : ℕ => -(n : ℤ)
      else if sign = '+' then (natural digits).map fun n : ℕ => (n : ℤ)
      else (natural (sign :: digits)).map fun n : ℕ => (n : ℤ)

/-- The exponent part of a literal; nothing at all stands for exponent zero. -/
def exponent : List Char → Option ℤ
  | [] => some 0
  | mark :: rest => if mark = 'e' ∨ mark = 'E' then integer rest else none

/-- The fraction digits after a point, if there is one, and what follows. -/
def fractionPart : List Char → List Char × List Char
  | [] => ([], [])
  | mark :: rest =>
      if mark = '.' then (rest.takeWhile Char.isDigit, rest.dropWhile Char.isDigit)
      else ([], mark :: rest)

/-- `digits[.digits][e[±]digits]` with at least one digit before the exponent. -/
def unsignedLiteral (text : List Char) : Option ℚ :=
  let whole := text.takeWhile Char.isDigit
  let (fraction, rest) := fractionPart (text.dropWhile Char.isDigit)
  if whole = [] ∧ fraction = [] then none
  else (exponent rest).map fun e =>
    (value (whole ++ fraction) : ℚ) * 10 ^ (e - (fraction.length : ℤ))

/-- A decimal literal with an optional sign. -/
def literal : List Char → Option ℚ
  | [] => none
  | sign :: rest =>
      if sign = '-' then (unsignedLiteral rest).map fun q => -q
      else if sign = '+' then unsignedLiteral rest
      else unsignedLiteral (sign :: rest)

@[simp] theorem natural_toDigits (n : ℕ) : natural (Nat.toDigits 10 n) = some n := by
  have all : (Nat.toDigits 10 n).all Char.isDigit = true :=
    List.all_eq_true.mpr isDigit_of_mem_toDigits
  simp only [natural, ne_eq, Nat.toDigits_ne_nil, not_false_eq_true, all, and_self, ↓reduceIte,
    value_toDigits]

section Literals

variable {whole fraction rest : List Char}

/-- A run of digits ends where the next character is no digit. -/
theorem takeWhile_isDigit_append (digits : ∀ c ∈ whole, c.isDigit = true)
    (stops : ∀ c ∈ rest.head?, c.isDigit = false) :
    (whole ++ rest).takeWhile Char.isDigit = whole ∧
      (whole ++ rest).dropWhile Char.isDigit = rest := by
  rw [List.takeWhile_append_of_pos digits, List.dropWhile_append_of_pos digits]
  cases rest with
  | nil => simp
  | cons c rest => simp [stops c rfl]

/-- A literal without a point is its digits, scaled by the exponent. -/
theorem unsignedLiteral_whole (nonempty : whole ≠ []) (digits : ∀ c ∈ whole, c.isDigit = true)
    (stops : ∀ c ∈ rest.head?, c.isDigit = false ∧ c ≠ '.') :
    unsignedLiteral (whole ++ rest) = (exponent rest).map fun e => (value whole : ℚ) * 10 ^ e := by
  obtain ⟨taken, dropped⟩ := takeWhile_isDigit_append digits fun c member => (stops c member).1
  have noFraction : fractionPart rest = ([], rest) := by
    cases rest with
    | nil => rfl
    | cons c rest => simp only [fractionPart, (stops c rfl).2, ↓reduceIte]
  simp only [unsignedLiteral, taken, dropped, noFraction, nonempty, false_and, ↓reduceIte,
    List.append_nil, List.length_nil, Nat.cast_zero, sub_zero]

/-- A literal with a point is all its digits, scaled by the exponent and by the decimals. -/
theorem unsignedLiteral_fraction (nonempty : whole ≠ []) (digits : ∀ c ∈ whole, c.isDigit = true)
    (decimals : ∀ c ∈ fraction, c.isDigit = true) (stops : ∀ c ∈ rest.head?, c.isDigit = false) :
    unsignedLiteral (whole ++ '.' :: (fraction ++ rest)) =
      (exponent rest).map fun e =>
        (value (whole ++ fraction) : ℚ) * 10 ^ (e - (fraction.length : ℤ)) := by
  have pointStops : ∀ c ∈ ('.' :: (fraction ++ rest)).head?, c.isDigit = false := by simp
  obtain ⟨taken, dropped⟩ := takeWhile_isDigit_append digits pointStops
  obtain ⟨fractionTaken, fractionDropped⟩ := takeWhile_isDigit_append decimals stops
  simp only [unsignedLiteral, taken, dropped, fractionPart, fractionTaken, fractionDropped,
    nonempty, false_and, ↓reduceIte]

/-- A literal that starts with a digit has no sign. -/
theorem literal_of_isDigit (digits : ∀ c ∈ whole.head?, c.isDigit = true) (nonempty : whole ≠ []) :
    literal (whole ++ rest) = unsignedLiteral (whole ++ rest) := by
  cases whole with
  | nil => exact absurd rfl nonempty
  | cons c whole =>
      have digit := digits c rfl
      have notMinus : c ≠ '-' := by rintro rfl; exact absurd digit (by decide)
      have notPlus : c ≠ '+' := by rintro rfl; exact absurd digit (by decide)
      simp only [List.cons_append, literal, notMinus, notPlus, ↓reduceIte]

/-- A minus sign negates the literal behind it. -/
theorem literal_minus {text : List Char} {q : ℚ} (nonempty : text ≠ [])
    (reads : literal text = some q) (unsigned : ∀ c ∈ text.head?, c.isDigit = true) :
    literal ('-' :: text) = some (-q) := by
  rw [← List.append_nil text, literal_of_isDigit unsigned nonempty, List.append_nil] at reads
  simp only [literal, ↓reduceIte, reads, Option.map_some]

end Literals

/-! ## Two decimals -/

/-- `n / 100` written with exactly two decimals. -/
def fixed2 (n : ℕ) : List Char := Nat.toDigits 10 (n / 100) ++ '.' :: padded 2 (n % 100)

theorem fixed2_ne_nil (n : ℕ) : fixed2 n ≠ [] := by
  simp [fixed2]

theorem isDigit_head_fixed2 (n : ℕ) : ∀ c ∈ (fixed2 n).head?, c.isDigit = true := by
  intro c member
  rw [fixed2, List.head?_append_of_ne_nil _ Nat.toDigits_ne_nil] at member
  exact isDigit_of_mem_toDigits c (List.mem_of_mem_head? member)

/-- Two printed decimals are read back as the number of hundredths. -/
theorem literal_fixed2 (n : ℕ) : literal (fixed2 n) = some ((n : ℚ) / 100) := by
  have digits : ∀ c ∈ Nat.toDigits 10 (n / 100), c.isDigit = true := isDigit_of_mem_toDigits
  have small : n % 100 < 10 ^ 2 := Nat.mod_lt n (by decide)
  have written : fixed2 n = Nat.toDigits 10 (n / 100) ++ '.' :: (padded 2 (n % 100) ++ []) := by
    rw [List.append_nil]; rfl
  rw [written, literal_of_isDigit (fun c member => digits c (List.mem_of_mem_head? member))
      Nat.toDigits_ne_nil,
    unsignedLiteral_fraction Nat.toDigits_ne_nil digits (fun c => isDigit_of_mem_padded) (by simp),
    value_append, value_toDigits, value_padded_of_lt small, length_padded, exponent,
    Option.map_some]
  have split : 10 ^ 2 * (n / 100) + n % 100 = n := Nat.div_add_mod n 100
  rw [split, zero_sub, zpow_neg, Nat.cast_ofNat, zpow_ofNat]
  norm_num
  ring

/-- A whole number with a comma before every group of three digits. -/
def grouped (n : ℕ) : List Char :=
  if n < 1000 then Nat.toDigits 10 n else grouped (n / 1000) ++ ',' :: padded 3 (n % 1000)
termination_by n
decreasing_by omega

/-- Grouping only inserts commas. -/
theorem grouped_filter (n : ℕ) : (grouped n).filter (· ≠ ',') = Nat.toDigits 10 n := by
  have keeps : ∀ digits : List Char, (∀ c ∈ digits, c.isDigit = true) →
      digits.filter (· ≠ ',') = digits := by
    intro digits all
    apply List.filter_eq_self.mpr
    intro c member
    apply decide_eq_true
    rintro rfl
    exact absurd (all ',' member) (by decide)
  induction n using Nat.strongRecOn with
  | _ n ih =>
      rw [grouped]
      by_cases small : n < 1000
      · simp only [small, ↓reduceIte]
        exact keeps _ isDigit_of_mem_toDigits
      · simp only [small, ↓reduceIte]
        rw [List.filter_append, ih (n / 1000) (by omega), List.filter_cons_of_neg (by decide),
          keeps _ fun c => isDigit_of_mem_padded]
        have whole := toDigits_append_padded (by omega : 0 < n / 1000) 3 (n % 1000)
          (Nat.mod_lt n (by decide))
        have split : 10 ^ 3 * (n / 1000) + n % 1000 = n := Nat.div_add_mod n 1000
        rwa [split] at whole

/-- A grouped number is one to three digits followed by comma groups of three. -/
theorem grouped_shape (n : ℕ) :
    ∃ (lead : List Char) (groups : List (List Char)),
      grouped n = lead ++ groups.flatMap (',' :: ·) ∧ lead ≠ [] ∧ lead.length ≤ 3 ∧
      (∀ c ∈ lead, c.isDigit = true) ∧
      ∀ digits ∈ groups, digits.length = 3 ∧ ∀ c ∈ digits, c.isDigit = true := by
  induction n using Nat.strongRecOn with
  | _ n ih =>
      rw [grouped]
      by_cases small : n < 1000
      · simp only [small, ↓reduceIte]
        refine ⟨Nat.toDigits 10 n, [], by simp, Nat.toDigits_ne_nil, ?_, ?_, by simp⟩
        · exact (Nat.length_toDigits_le_iff (by decide) (by decide)).mpr small
        · exact isDigit_of_mem_toDigits
      · simp only [small, ↓reduceIte]
        obtain ⟨lead, groups, shape, nonempty, short, digits, all⟩ := ih (n / 1000) (by omega)
        refine ⟨lead, groups ++ [padded 3 (n % 1000)], ?_, nonempty, short, digits, ?_⟩
        · rw [shape, List.flatMap_append, List.flatMap_singleton, List.append_assoc]
        · intro group member
          rcases List.mem_append.mp member with earlier | last
          · exact all group earlier
          · rw [List.mem_singleton.mp last]
            exact ⟨length_padded _ _, fun c => isDigit_of_mem_padded⟩

/-! ## The nearest hundredth -/

/-- The nearest multiple of one hundredth, the larger one when two are equally
near. -/
def hundredths (q : ℚ) : ℤ := ⌊q * 100 + 1 / 2⌋

/-- A number within half a hundredth of `n` hundredths rounds to them. -/
theorem hundredths_eq {q : ℚ} {n : ℤ} (near : |q - n / 100| < 1 / 200) : hundredths q = n := by
  rw [abs_lt] at near
  rw [hundredths, Int.floor_eq_iff]
  constructor <;> linarith [near.1, near.2]

@[simp] theorem hundredths_intCast_div (n : ℤ) : hundredths (n / 100) = n :=
  hundredths_eq (by simp)

/-- Rounding keeps a number that is not negative so. -/
theorem hundredths_nonneg {q : ℚ} (nonneg : 0 ≤ q) : 0 ≤ hundredths q := by
  rw [hundredths, Int.floor_nonneg]
  linarith

end Decimal
