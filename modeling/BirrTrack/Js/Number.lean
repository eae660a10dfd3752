import BirrTrack.Foundation.Binary64
import BirrTrack.Foundation.Decimal

/-! # ECMAScript numbers

Finite Number values, their conversion to text (`Number::toString`, `toFixed(2)`)
and from text (`Number(text)` on decimal literals). The text of a number is the
shortest decimal that rounds back to it (`literal_toString`).
-/

namespace BirrTrack.Js

/-- A finite Number value. The two zeros are one value here; no operation below
tells them apart. -/
@[ext] structure Number where
  val : ℚ
  representable : Binary64.Representable val
  deriving DecidableEq

namespace Number

/-- The Number nearest to a rational, unless that is an infinity. -/
def ofRat (q : ℚ) : Option Number :=
  match rounded : Binary64.round q with
  | some v => some ⟨v, Binary64.representable_of_round rounded⟩
  | none => none

theorem ofRat_eq_some {q : ℚ} {number : Number} (rounded : Binary64.round q = some number.val) :
    ofRat q = some number := by
  unfold ofRat
  split
  next v found => rw [found] at rounded; exact congrArg some (Number.ext (Option.some.inj rounded))
  next found => rw [found] at rounded; cases rounded

theorem round_of_ofRat {q : ℚ} {number : Number} (found : ofRat q = some number) :
    Binary64.round q = some number.val := by
  unfold ofRat at found
  split at found
  next v rounded =>
    cases found
    exact rounded
  next => cases found

theorem ofRat_mono {a b : ℚ} {larger : Number} (nonneg : 0 ≤ a) (le : a ≤ b)
    (found : ofRat b = some larger) : ∃ smaller, ofRat a = some smaller ∧
      smaller.val ≤ larger.val := by
  obtain ⟨v, below, rounded⟩ := Binary64.round_mono nonneg le (round_of_ofRat found)
  exact ⟨⟨v, Binary64.representable_of_round rounded⟩, ofRat_eq_some rounded, below⟩

/-- `digits × 10 ^ (point - count)`, where `digits` has `count` decimal digits. -/
structure Shortest where
  digits : ℕ
  count : ℕ
  point : ℤ

def Shortest.value (s : Shortest) : ℚ := s.digits * 10 ^ (s.point - s.count)

/-- The decimal point of a positive number: `10 ^ (p - 1) ≤ v < 10 ^ p`. -/
def decimalPoint (v : ℚ) : ℤ := Int.log 10 v + 1

/-- With `count` digits, the nearer of the two neighbouring decimals that round
to `v`. -/
def candidate (v : ℚ) (count : ℕ) : Option Shortest :=
  let point := decimalPoint v
  let unit : ℚ := 10 ^ (point - count)
  let low := ⌊v / unit⌋.toNat
  let below := v - low * unit
  let above := (low + 1) * unit - v
  let lowRounds := Binary64.round (low * unit) = some v
  let highRounds := Binary64.round ((low + 1) * unit) = some v
  if lowRounds ∧ (¬ highRounds ∨ below < above ∨ below = above ∧ low % 2 = 0) then
    some ⟨low, count, point⟩
  else if highRounds then
    -- A carry into one more digit leaves a power of ten.
    if low + 1 = 10 ^ count then some ⟨1, 1, point + 1⟩ else some ⟨low + 1, count, point⟩
  else none

/-- The fewest digits, at most seventeen, that round back to `v`. -/
def shortest (v : ℚ) : Option Shortest :=
  (List.range' 1 17).findSome? (candidate v)

/-- The layout of `Number::toString` for digits with their decimal point. -/
def layout (digits : List Char) (point : ℤ) : List Char :=
  if digits.length ≤ point ∧ point ≤ 21 then
    digits ++ List.replicate (point - digits.length).toNat '0'
  else if 0 < point ∧ point ≤ 21 then
    digits.take point.toNat ++ '.' :: digits.drop point.toNat
  else if -6 < point ∧ point ≤ 0 then
    '0' :: '.' :: (List.replicate (-point).toNat '0' ++ digits)
  else
    let exponent := (if point - 1 < 0 then '-' else '+') :: Nat.toDigits 10 (point - 1).natAbs
    match digits with
    | [] => []
    | [digit] => digit :: 'e' :: exponent
    | digit :: decimals => digit :: '.' :: (decimals ++ 'e' :: exponent)

/-- The text of a positive number. -/
def positiveText (v : ℚ) : List Char :=
  match shortest v with
  | some s => layout (Nat.toDigits 10 s.digits) s.point
  | none => []

/-- `String(value)` -/
def toString (number : Number) : String :=
  if number.val = 0 then "0"
  else if number.val < 0 then String.ofList ('-' :: positiveText (-number.val))
  else String.ofList (positiveText number.val)

/-- `value.toFixed(2)`; from `10 ^ 21` on it is `String(value)`. -/
def toFixed2 (number : Number) : String :=
  let magnitude := |number.val|
  let text :=
    if 10 ^ 21 ≤ magnitude then positiveText magnitude
    else Decimal.fixed2 (Decimal.hundredths magnitude).toNat
  String.ofList (if number.val < 0 then '-' :: text else text)

/-- `Number(text)` for the decimal literals, under a given rounding of exact
values; anything else counts as not finite. -/
def ofText (rounding : ℚ → Option Number) (text : List Char) : Option Number :=
  (Decimal.literal text).bind rounding

/-! ## The digits of a number -/

section Digits

variable {v : ℚ}

theorem decimalPoint_bounds (positive : 0 < v) :
    (10 : ℚ) ^ (decimalPoint v - 1) ≤ v ∧ v < 10 ^ decimalPoint v := by
  refine ⟨?_, ?_⟩
  · rw [decimalPoint, add_sub_cancel_right]
    exact_mod_cast Int.zpow_log_le_self (by norm_num) positive
  · exact_mod_cast Int.lt_zpow_succ_log_self (by norm_num) v

theorem length_toDigits {n count : ℕ} (positive : 0 < count) (lower : 10 ^ (count - 1) ≤ n)
    (upper : n < 10 ^ count) : (Nat.toDigits 10 n).length = count := by
  apply le_antisymm ((Nat.length_toDigits_le_iff (by decide) positive).mpr upper)
  by_contra fewer
  have short : (Nat.toDigits 10 n).length ≤ count - 1 := by omega
  have some : 0 < count - 1 := lt_of_lt_of_le Nat.length_toDigits_pos short
  have := (Nat.length_toDigits_le_iff (by decide) some).mp short
  omega

/-- The digits in front of the point of a candidate, and how they enclose the
number. -/
theorem low_bounds (positive : 0 < v) {count : ℕ} (some : 0 < count) :
    let unit : ℚ := 10 ^ (decimalPoint v - count)
    let low := ⌊v / unit⌋.toNat
    10 ^ (count - 1) ≤ low ∧ low < 10 ^ count ∧ low * unit ≤ v ∧ v < (low + 1) * unit := by
  intro unit low
  obtain ⟨lower, upper⟩ := decimalPoint_bounds positive
  have unitPositive : 0 < unit := by positivity
  have scaledLower : ((10 ^ (count - 1) : ℕ) : ℚ) ≤ v / unit := by
    rw [le_div_iff₀ unitPositive, Nat.cast_pow, ← zpow_natCast, Nat.cast_sub some, Nat.cast_ofNat,
      ← zpow_add₀ (by norm_num)]
    refine le_trans (le_of_eq ?_) lower
    congr 1
    push_cast
    ring
  have scaledUpper : v / unit < ((10 ^ count : ℕ) : ℚ) := by
    rw [div_lt_iff₀ unitPositive, Nat.cast_pow, ← zpow_natCast, Nat.cast_ofNat,
      ← zpow_add₀ (by norm_num)]
    refine lt_of_lt_of_eq upper ?_
    congr 1
    ring
  have nonneg : 0 ≤ ⌊v / unit⌋ := Int.floor_nonneg.mpr (by positivity)
  have cast : (low : ℚ) = ⌊v / unit⌋ := by exact_mod_cast Int.toNat_of_nonneg nonneg
  have floorLe := Int.floor_le (v / unit)
  have ltFloor := Int.lt_floor_add_one (v / unit)
  refine ⟨?_, ?_, ?_, ?_⟩
  · apply (Int.le_toNat nonneg).mpr
    exact Int.le_floor.mpr (by exact_mod_cast scaledLower)
  · apply (Int.toNat_lt nonneg).mpr
    exact Int.floor_lt.mpr (by exact_mod_cast scaledUpper)
  · rw [cast]
    exact (le_div_iff₀ unitPositive).mp floorLe
  · rw [cast]
    exact (div_lt_iff₀ unitPositive).mp ltFloor

/-- The digits round back to the number, are as many as announced without a
leading zero, and reach at least as far as the number itself. -/
structure Shortest.Writes (s : Shortest) (v : ℚ) : Prop where
  rounds : Binary64.round s.value = some v
  length : (Nat.toDigits 10 s.digits).length = s.count
  lead : 10 ^ (s.count - 1) ≤ s.digits
  point : decimalPoint v ≤ s.point

theorem Shortest.Writes.le_value {s : Shortest} {v : ℚ} (writes : s.Writes v) :
    (10 : ℚ) ^ (s.point - 1) ≤ s.value := by
  have some : 0 < s.count := writes.length ▸ Nat.length_toDigits_pos
  have lead : (10 : ℚ) ^ ((s.count : ℤ) - 1) ≤ s.digits := by
    have cast : ((s.count - 1 : ℕ) : ℤ) = (s.count : ℤ) - 1 := by omega
    rw [← cast, zpow_natCast]
    exact_mod_cast writes.lead
  calc (10 : ℚ) ^ (s.point - 1) = 10 ^ ((s.count : ℤ) - 1) * 10 ^ (s.point - s.count) := by
        rw [← zpow_add₀ (by norm_num)]
        congr 1
        ring
    _ ≤ s.value := mul_le_mul_of_nonneg_right lead (by positivity)

theorem candidate_spec (positive : 0 < v) {count : ℕ} (some : 0 < count) {s : Shortest}
    (found : candidate v count = .some s) :
    s.Writes v ∧ decimalPoint v - count ≤ s.point - s.count := by
  obtain ⟨lower, upper, -, -⟩ := low_bounds positive some
  simp only [candidate] at found
  split at found
  next chosen =>
    cases found
    exact ⟨⟨chosen.1, length_toDigits some lower upper, lower, le_rfl⟩, le_rfl⟩
  next =>
    split at found
    next highRounds =>
      split at found
      next carry =>
        cases found
        refine ⟨⟨?_, show (Nat.toDigits 10 1).length = 1 by decide, le_rfl, by simp⟩, ?_⟩
        · rw [← highRounds]
          congr 1
          have digits : (((⌊v / 10 ^ (decimalPoint v - count)⌋.toNat + 1 : ℕ) : ℕ) : ℚ) =
              10 ^ (count : ℤ) := by
            rw [carry]
            push_cast
            rfl
          push_cast at digits
          rw [digits, ← zpow_add₀ (by norm_num), Shortest.value]
          simp
        · simp only [Nat.cast_one, add_sub_cancel_right]
          omega
      next noCarry =>
        cases found
        refine ⟨⟨?_, length_toDigits some (by simp only; omega) (by simp only; omega),
          lower.trans (Nat.le_succ _), le_rfl⟩, le_rfl⟩
        rw [← highRounds, Shortest.value]
        push_cast
        rfl
    next => cases found

/-- Where one of the two neighbours rounds to the number there is a candidate. -/
theorem candidate_isSome {count : ℕ}
    (rounds :
      let unit : ℚ := 10 ^ (decimalPoint v - count)
      let low := ⌊v / unit⌋.toNat
      Binary64.round (low * unit) = some v ∨ Binary64.round ((low + 1) * unit) = some v) :
    (candidate v count).isSome = true := by
  simp only [candidate]
  split
  · rfl
  next notLow =>
    split
    · split <;> rfl
    next notHigh =>
      rcases rounds with low | high
      · exact absurd ⟨low, Or.inl notHigh⟩ notLow
      · exact absurd high notHigh

/-- Seventeen digits always suffice. -/
theorem candidate_seventeen (positive : 0 < v) (exact : Binary64.Representable v) :
    (candidate v 17).isSome = true := by
  apply candidate_isSome
  intro unit low
  obtain ⟨-, -, below, above⟩ := low_bounds positive (by decide : 0 < 17)
  obtain ⟨lower, -⟩ := decimalPoint_bounds positive
  have unitPositive : 0 < unit := by positivity
  have small : unit / 2 < 2 ^ (-54 : ℤ) * v := by
    have scaled : unit = 10 ^ (-16 : ℤ) * 10 ^ (decimalPoint v - 1) := by
      rw [← zpow_add₀ (by norm_num)]
      change (10 : ℚ) ^ (decimalPoint v - 17) = _
      congr 1
      ring
    calc unit / 2 = (10 ^ (-16 : ℤ) / 2) * 10 ^ (decimalPoint v - 1) := by rw [scaled]; ring
      _ ≤ (10 ^ (-16 : ℤ) / 2) * v := mul_le_mul_of_nonneg_left lower (by norm_num)
      _ < 2 ^ (-54 : ℤ) * v := mul_lt_mul_of_pos_right (by norm_num) positive
  change (low : ℚ) * unit ≤ v at below
  change v < (low + 1) * unit at above
  rcases le_total (v - low * unit) (unit / 2) with near | far
  · left
    apply Binary64.round_near positive exact
    rw [abs_sub_comm, abs_of_nonneg (by linarith)]
    exact near.trans_lt small
  · right
    apply Binary64.round_near positive exact
    rw [abs_of_nonneg (by linarith)]
    exact (by linarith : (low + 1) * unit - v ≤ unit / 2).trans_lt small

/-- What `shortest` finds: digits that round back to the number, no more of them
than any number of digits that would do. -/
theorem shortest_spec (positive : 0 < v) (exact : Binary64.Representable v) :
    ∃ s, shortest v = some s ∧ s.Writes v ∧
      ∀ count : ℕ, 0 < count → count ≤ 17 → (candidate v count).isSome = true →
        decimalPoint v - count ≤ s.point - s.count := by
  have found : ((List.range' 1 17).findSome? (candidate v)).isSome = true := by
    rw [List.isSome_findSome?]
    exact List.any_eq_true.mpr ⟨17, by decide, candidate_seventeen positive exact⟩
  obtain ⟨s, found⟩ := Option.isSome_iff_exists.mp found
  obtain ⟨front, first, back, split, atFirst, none⟩ := List.findSome?_eq_some_iff.mp found
  have sorted : (front ++ first :: back).Pairwise (· < ·) := split ▸ List.pairwise_lt_range'
  have first_pos : 0 < first := by
    have : first ∈ List.range' 1 17 := split ▸ List.mem_append_right _ List.mem_cons_self
    exact (List.mem_range'_1.mp this).1
  obtain ⟨writes, places⟩ := candidate_spec positive first_pos atFirst
  refine ⟨s, found, writes, ?_⟩
  intro count some atMost candidates
  have member : count ∈ front ++ first :: back := by
    rw [← split, List.mem_range'_1]
    omega
  have first_le : first ≤ count := by
    rcases List.mem_append.mp member with early | late
    · rw [none count early] at candidates
      cases candidates
    · rcases List.mem_cons.mp late with rfl | later
      · exact le_rfl
      · exact ((List.pairwise_cons.mp (List.pairwise_append.mp sorted).2.1).1 count later).le
  omega

end Digits

/-! ## Reading a number's text back -/

theorem exponent_text (e : ℤ) :
    Decimal.exponent
      ('e' :: (if e < 0 then '-' else '+') :: Nat.toDigits 10 e.natAbs) = some e := by
  by_cases negative : e < 0
  · have sign : -(e.natAbs : ℤ) = e := by omega
    simp only [Decimal.exponent, Decimal.integer, negative, ↓reduceIte, true_or,
      Decimal.natural_toDigits, Option.map_some, sign]
  · have sign : (e.natAbs : ℤ) = e := by omega
    have distinct : '+' ≠ '-' := by decide
    simp only [Decimal.exponent, Decimal.integer, negative, distinct, ↓reduceIte, true_or,
      Decimal.natural_toDigits, Option.map_some, sign]

section Layout
variable {digits : List Char} {point : ℤ}

theorem isDigit_replicate_zero (count : ℕ) : ∀ c ∈ List.replicate count '0', c.isDigit = true := by
  intro c member
  rw [List.eq_of_mem_replicate member]
  rfl

/-- All digits, then zeros up to the point. -/
theorem literal_integer (nonempty : digits ≠ []) (all : ∀ c ∈ digits, c.isDigit = true)
    (plain : digits.length ≤ point) :
    Decimal.literal (digits ++ List.replicate (point - digits.length).toNat '0') =
      some ((Decimal.value digits : ℚ) * 10 ^ (point - (digits.length : ℤ))) := by
  have whole : ∀ c ∈ digits ++ List.replicate (point - digits.length).toNat '0',
      c.isDigit = true := by
    intro c member
    rcases List.mem_append.mp member with left | right
    · exact all c left
    · exact isDigit_replicate_zero _ c right
  have some : digits ++ List.replicate (point - digits.length).toNat '0' ≠ [] := by
    simp [nonempty]
  rw [← List.append_nil (digits ++ _), Decimal.literal_of_isDigit
    (fun c member => whole c (List.mem_of_mem_head? member)) some,
    Decimal.unsignedLiteral_whole some whole (by simp), Decimal.exponent, Option.map_some,
    Decimal.value_append, Decimal.value_replicate_zero, List.length_replicate]
  have exponent : point - digits.length = ((point - digits.length).toNat : ℤ) := by omega
  rw [exponent, Int.toNat_natCast, zpow_natCast, zpow_zero]
  push_cast
  congr 1
  ring

/-- The point falls inside the digits. -/
theorem literal_pointed (nonempty : digits ≠ []) (all : ∀ c ∈ digits, c.isDigit = true)
    (positive : 0 < point) (inside : point < digits.length) :
    Decimal.literal (digits.take point.toNat ++ '.' :: digits.drop point.toNat) =
      some ((Decimal.value digits : ℚ) * 10 ^ (point - (digits.length : ℤ))) := by
  have front : ∀ c ∈ digits.take point.toNat, c.isDigit = true :=
    fun c member => all c (List.mem_of_mem_take member)
  have back : ∀ c ∈ digits.drop point.toNat, c.isDigit = true :=
    fun c member => all c (List.mem_of_mem_drop member)
  have some : digits.take point.toNat ≠ [] := by
    rw [ne_eq, List.take_eq_nil_iff]
    rintro (zero | none)
    · omega
    · exact nonempty none
  rw [Decimal.literal_of_isDigit (fun c member => front c (List.mem_of_mem_head? member)) some,
    ← List.append_nil (digits.drop _),
    Decimal.unsignedLiteral_fraction some front back (by simp), Decimal.exponent,
    Option.map_some, List.take_append_drop, List.length_drop]
  congr 3
  omega

/-- Zeros after the point come before the digits. -/
theorem literal_leadingZeros (all : ∀ c ∈ digits, c.isDigit = true) (leading : point ≤ 0) :
    Decimal.literal ('0' :: '.' :: (List.replicate (-point).toNat '0' ++ digits)) =
      some ((Decimal.value digits : ℚ) * 10 ^ (point - (digits.length : ℤ))) := by
  have back : ∀ c ∈ List.replicate (-point).toNat '0' ++ digits, c.isDigit = true := by
    intro c member
    rcases List.mem_append.mp member with left | right
    · exact isDigit_replicate_zero _ c left
    · exact all c right
  have written : '0' :: '.' :: (List.replicate (-point).toNat '0' ++ digits) =
      ['0'] ++ '.' :: ((List.replicate (-point).toNat '0' ++ digits) ++ []) := by simp
  rw [written, Decimal.literal_of_isDigit (by simp) (by simp),
    Decimal.unsignedLiteral_fraction (by simp) (by simp) back (by simp), Decimal.exponent,
    Option.map_some, Decimal.value_append, Decimal.value_append,
    Decimal.value_replicate_zero, List.length_append, List.length_replicate]
  have zero : Decimal.value ['0'] = 0 := rfl
  rw [zero, Nat.mul_zero, Nat.zero_add, Nat.mul_zero, Nat.zero_add]
  congr 3
  push_cast
  omega

/-- Exponent notation of a single digit. -/
theorem literal_exponent {digit : Char} (isDigit : digit.isDigit = true) (e : ℤ) :
    Decimal.literal (digit :: 'e' ::
      (if e < 0 then '-' else '+') :: Nat.toDigits 10 e.natAbs) =
        some ((Decimal.value [digit] : ℚ) * 10 ^ e) := by
  have first : ∀ c ∈ [digit], c.isDigit = true := List.forall_mem_singleton.mpr isDigit
  change Decimal.literal ([digit] ++ 'e' :: _) = _
  rw [Decimal.literal_of_isDigit (fun c member => first c (List.mem_of_mem_head? member)) (by simp),
    Decimal.unsignedLiteral_whole (by simp) first (by simp), exponent_text, Option.map_some]

/-- Exponent notation with decimals. -/
theorem literal_exponent_decimals {digit : Char} {decimals : List Char}
    (isDigit : digit.isDigit = true) (later : ∀ c ∈ decimals, c.isDigit = true) (e : ℤ) :
    Decimal.literal (digit :: '.' :: (decimals ++ 'e' ::
      (if e < 0 then '-' else '+') :: Nat.toDigits 10 e.natAbs)) =
        some ((Decimal.value (digit :: decimals) : ℚ) * 10 ^ (e - decimals.length)) := by
  have first : ∀ c ∈ [digit], c.isDigit = true := List.forall_mem_singleton.mpr isDigit
  change Decimal.literal ([digit] ++ '.' :: (decimals ++ 'e' :: _)) = _
  rw [Decimal.literal_of_isDigit (fun c member => first c (List.mem_of_mem_head? member)) (by simp),
    Decimal.unsignedLiteral_fraction (by simp) first later (by simp), exponent_text,
    Option.map_some, List.singleton_append]

end Layout

/-- Every layout of the digits is a literal for the same number. -/
theorem literal_layout {digits : List Char} (nonempty : digits ≠ [])
    (all : ∀ c ∈ digits, c.isDigit = true) (point : ℤ) :
    Decimal.literal (layout digits point) =
      some ((Decimal.value digits : ℚ) * 10 ^ (point - (digits.length : ℤ))) := by
  unfold layout
  split
  next plain => exact literal_integer nonempty all plain.1
  next notPlain =>
    split
    next within => exact literal_pointed nonempty all within.1 (by omega)
    next =>
      split
      next leading => exact literal_leadingZeros all leading.2
      next =>
        cases digits with
        | nil => exact absurd rfl nonempty
        | cons digit decimals =>
            have first := all digit List.mem_cons_self
            cases decimals with
            | nil => exact literal_exponent first (point - 1)
            | cons next decimals =>
                have later : ∀ c ∈ next :: decimals, c.isDigit = true :=
                  fun c member => all c (List.mem_cons_of_mem digit member)
                have written := literal_exponent_decimals first later (point - 1)
                have places : point - 1 - ((next :: decimals).length : ℤ) =
                    point - ((digit :: next :: decimals).length : ℤ) := by
                  simp only [List.length_cons]
                  push_cast
                  ring
                rw [places] at written
                exact written

/-- The text of a positive number starts with a digit. -/
theorem layout_head {digits : List Char} (nonempty : digits ≠ [])
    (all : ∀ c ∈ digits, c.isDigit = true) (point : ℤ) :
    layout digits point ≠ [] ∧ ∀ c ∈ (layout digits point).head?, c.isDigit = true := by
  cases digits with
  | nil => exact absurd rfl nonempty
  | cons digit decimals =>
      have first := all digit List.mem_cons_self
      unfold layout
      split
      · simpa using first
      · split
        next within =>
          obtain ⟨count, point⟩ : ∃ count, point.toNat = count + 1 := ⟨point.toNat - 1, by omega⟩
          simpa [point] using first
        next =>
          split
          · simp
          · cases decimals <;> simpa using first

theorem positiveText_head {v : ℚ} {s : Shortest} (found : shortest v = some s) :
    positiveText v ≠ [] ∧ ∀ c ∈ (positiveText v).head?, c.isDigit = true := by
  simp only [positiveText, found]
  exact layout_head Nat.toDigits_ne_nil Decimal.isDigit_of_mem_toDigits s.point

/-- The text of a positive number is a literal that rounds back to it. -/
theorem literal_positiveText {v : ℚ} (positive : 0 < v) (exact : Binary64.Representable v) :
    ∃ s, shortest v = some s ∧ Binary64.round s.value = some v ∧
      Decimal.literal (positiveText v) = some s.value := by
  obtain ⟨s, found, writes, -⟩ := shortest_spec positive exact
  refine ⟨s, found, writes.rounds, ?_⟩
  simp only [positiveText, found]
  rw [literal_layout Nat.toDigits_ne_nil Decimal.isDigit_of_mem_toDigits, Decimal.value_toDigits,
    writes.length]
  rfl

theorem literal_toString_of_nonneg {number : Number} (nonneg : 0 ≤ number.val) :
    ∃ q, Decimal.literal number.toString.toList = some q ∧ 0 ≤ q ∧
      Binary64.round q = some number.val := by
  rcases nonneg.eq_or_lt with zero | positive
  · refine ⟨0, ?_, le_rfl, by rw [← zero]; exact Binary64.representable_zero⟩
    simp only [toString, ← zero, ↓reduceIte]
    decide +kernel
  · obtain ⟨s, -, rounds, text⟩ := literal_positiveText positive number.representable
    refine ⟨s.value, ?_, by unfold Shortest.value; positivity, rounds⟩
    simpa only [toString, positive.ne', positive.not_gt, ↓reduceIte, String.toList_ofList]
      using text

/-- `String(value)` determines the value: it is a literal that rounds back. -/
theorem literal_toString (number : Number) :
    ∃ q, Decimal.literal number.toString.toList = some q ∧ Binary64.round q = some number.val := by
  rcases lt_or_ge number.val 0 with negative | nonneg
  · obtain ⟨s, found, rounds, text⟩ := literal_positiveText (by linarith : 0 < -number.val)
      (Binary64.representable_neg number.representable)
    obtain ⟨nonempty, unsigned⟩ := positiveText_head found
    refine ⟨-s.value, ?_, ?_⟩
    · simp only [toString, negative.ne, negative, ↓reduceIte, String.toList_ofList]
      exact Decimal.literal_minus nonempty text unsigned
    · rw [Binary64.round_neg, rounds, Option.map_some, neg_neg]
  · obtain ⟨q, text, -, rounds⟩ := literal_toString_of_nonneg nonneg
    exact ⟨q, text, rounds⟩

theorem toString_injective : Function.Injective toString := by
  intro first second same
  obtain ⟨q, text, rounds⟩ := literal_toString first
  obtain ⟨q', text', rounds'⟩ := literal_toString second
  rw [same, text'] at text
  cases text
  exact Number.ext (Option.some.inj (rounds.symm.trans rounds'))

theorem not_mem_layout {digits : List Char} (all : ∀ c ∈ digits, c.isDigit = true) {c : Char}
    (notDigit : c.isDigit = false) (noSign : c ∉ ['.', 'e', '+', '-']) (point : ℤ) :
    c ∉ layout digits point := by
  have absent : ∀ {text : List Char}, (∀ d ∈ text, d.isDigit = true) → c ∉ text := by
    intro text all member
    rw [all c member] at notDigit
    cases notDigit
  have zeros : ∀ count, c ∉ List.replicate count '0' := fun count =>
    absent fun d member => List.eq_of_mem_replicate member ▸ rfl
  have zero : c ≠ '0' := fun same => by
    rw [same] at notDigit
    cases notDigit
  have inDigits := absent all
  have exponent : c ∉ Nat.toDigits 10 (point - 1).natAbs := absent Decimal.isDigit_of_mem_toDigits
  have front : c ∉ digits.take point.toNat := fun member => inDigits (List.mem_of_mem_take member)
  have back : c ∉ digits.drop point.toNat := fun member => inDigits (List.mem_of_mem_drop member)
  have sign : c ≠ (if point - 1 < 0 then '-' else '+') := by
    split
    · exact fun same => noSign (by simp [same])
    · exact fun same => noSign (by simp [same])
  simp only [List.mem_cons, List.not_mem_nil, or_false, not_or] at noSign
  obtain ⟨dot, mark, -, -⟩ := noSign
  unfold layout
  split
  · simp only [List.mem_append, not_or]
    exact ⟨inDigits, zeros _⟩
  split
  · simp only [List.mem_append, List.mem_cons, not_or]
    exact ⟨front, dot, back⟩
  split
  · simp only [List.mem_append, List.mem_cons, not_or]
    exact ⟨zero, dot, zeros _, inDigits⟩
  cases digits with
  | nil => exact List.not_mem_nil
  | cons digit decimals =>
      have first : c ≠ digit := fun same => inDigits (same ▸ List.mem_cons_self)
      have rest : c ∉ decimals := fun member => inDigits (List.mem_cons_of_mem digit member)
      cases decimals with
      | nil =>
          simp only [List.mem_cons, not_or]
          exact ⟨first, mark, sign, exponent⟩
      | cons next decimals =>
          simp only [List.mem_cons, List.mem_append, not_or] at rest ⊢
          exact ⟨first, dot, rest, mark, sign, exponent⟩

/-- The text of a number has digits, signs, a point and an exponent mark only. -/
theorem not_mem_toString (number : Number) {c : Char} (notDigit : c.isDigit = false)
    (noSign : c ∉ ['.', 'e', '+', '-']) : c ∉ number.toString.toList := by
  have positive : ∀ v, c ∉ positiveText v := by
    intro v
    unfold positiveText
    split
    · exact not_mem_layout Decimal.isDigit_of_mem_toDigits notDigit noSign _
    · exact List.not_mem_nil
  unfold toString
  split
  · intro member
    have zero : c = '0' := by simpa using member
    rw [zero] at notDigit
    cases notDigit
  split
  · rw [String.toList_ofList, List.mem_cons, not_or]
    exact ⟨fun same => noSign (by simp [same]), positive _⟩
  · rw [String.toList_ofList]
    exact positive _

/-! ## Amounts with at most two decimals -/

/-- `text.split('.')[1]` -/
def secondPart (text : List Char) : Option (List Char) :=
  match text.dropWhile (· ≠ '.') with
  | [] => none
  | _ :: rest => some (rest.takeWhile (· ≠ '.'))

theorem secondPart_append {front back : List Char} (none : '.' ∉ front) :
    secondPart (front ++ back) = secondPart back := by
  have skips : (front ++ back).dropWhile (· ≠ '.') = back.dropWhile (· ≠ '.') := by
    apply List.dropWhile_append_of_pos
    intro c member
    exact decide_eq_true fun same => none (same ▸ member)
  rw [secondPart, skips, secondPart]

theorem secondPart_point (rest : List Char) :
    secondPart ('.' :: rest) = some (rest.takeWhile (· ≠ '.')) := by
  rw [secondPart, List.dropWhile_cons_of_neg (by decide)]

theorem point_not_mem {digits : List Char} (all : ∀ c ∈ digits, c.isDigit = true) :
    '.' ∉ digits := fun member => absurd (all '.' member) (by decide)

/-- Two characters or fewer after the point leave at most two decimals. -/
theorem places_of_secondPart {digits part : List Char} (nonempty : digits ≠ [])
    (all : ∀ c ∈ digits, c.isDigit = true) {point : ℤ}
    (second : secondPart (layout digits point) = some part) (short : part.length ≤ 2) :
    -2 ≤ point - (digits.length : ℤ) := by
  have noPoint := point_not_mem all
  have zeros : ∀ count, '.' ∉ List.replicate count '0' := fun count member =>
    absurd (List.eq_of_mem_replicate member) (by decide)
  have keeps : ∀ {text : List Char}, '.' ∉ text → text.takeWhile (· ≠ '.') = text := by
    intro text absent
    rw [← List.append_nil text, List.takeWhile_append_of_pos, List.takeWhile_nil]
    intro c member
    exact decide_eq_true fun same => absent (same ▸ member)
  unfold layout at second
  split at second
  next plain =>
    rw [← List.append_nil (digits ++ _),
      secondPart_append (by simpa only [List.mem_append, not_or] using ⟨noPoint, zeros _⟩)]
      at second
    cases second
  next =>
    split at second
    next within =>
      rw [secondPart_append fun member => noPoint (List.mem_of_mem_take member), secondPart_point,
        keeps fun member => noPoint (List.mem_of_mem_drop member)] at second
      cases second
      rw [List.length_drop] at short
      omega
    next =>
      split at second
      next leading =>
        rw [← List.singleton_append, secondPart_append (by decide), secondPart_point,
          keeps (by simpa only [List.mem_append, not_or] using ⟨zeros _, noPoint⟩)] at second
        cases second
        rw [List.length_append, List.length_replicate] at short
        omega
      next =>
        have exponentDigits : '.' ∉ Nat.toDigits 10 (point - 1).natAbs :=
          point_not_mem Decimal.isDigit_of_mem_toDigits
        have exponent : '.' ∉ 'e' :: (if point - 1 < 0 then '-' else '+') ::
            Nat.toDigits 10 (point - 1).natAbs := by
          have sign : '.' ≠ (if point - 1 < 0 then '-' else '+') := by split <;> decide
          simp only [List.mem_cons, not_or]
          exact ⟨by decide, sign, exponentDigits⟩
        cases digits with
        | nil => exact absurd rfl nonempty
        | cons digit decimals =>
            have first : '.' ∉ [digit] := by
              intro member
              exact noPoint (List.mem_singleton.mp member ▸ List.mem_cons_self)
            cases decimals with
            | nil =>
                change secondPart ([digit] ++ ('e' :: _)) = _ at second
                rw [secondPart_append first, ← List.append_nil ('e' :: _),
                  secondPart_append exponent] at second
                cases second
            | cons next decimals =>
                change secondPart ([digit] ++ '.' :: ((next :: decimals) ++ 'e' :: _)) = _ at second
                rw [secondPart_append first, secondPart_point, keeps] at second
                · cases second
                  simp only [List.length_append, List.length_cons] at short
                  omega
                · rw [List.mem_append, not_or]
                  exact ⟨fun member => noPoint (List.mem_cons_of_mem digit member), exponent⟩

theorem value_of_places {s : Shortest} (places : -2 ≤ s.point - (s.count : ℤ)) :
    ∃ cents : ℕ, s.value = cents / 100 := by
  obtain ⟨k, shift⟩ : ∃ k : ℕ, s.point - (s.count : ℤ) = k - 2 :=
    ⟨(s.point - (s.count : ℤ) + 2).toNat, by omega⟩
  refine ⟨s.digits * 10 ^ k, ?_⟩
  rw [Shortest.value, shift, zpow_sub₀ (by norm_num), zpow_natCast]
  push_cast
  ring

/-- Within the range of the amounts handled here, the nearest hundredth of a
number whose shortest text has at most two decimals is that text's value. -/
theorem hundredths_eq_of_round {v : ℚ} {cents : ℕ} (bounded : v < 10 ^ 13) (positive : 0 < cents)
    (rounds : Binary64.round (cents / 100) = some v) : Decimal.hundredths v = cents := by
  have one : (1 : ℚ) ≤ cents := by exact_mod_cast positive
  have valuePositive : (0 : ℚ) < cents / 100 := by positivity
  have normal : (2 : ℚ) ^ (-1022 : ℤ) ≤ cents / 100 := by
    have tiny : (2 : ℚ) ^ (-1022 : ℤ) ≤ 2 ^ (-7 : ℤ) :=
      zpow_le_zpow_right₀ one_le_two (by norm_num)
    have small : (2 : ℚ) ^ (-7 : ℤ) ≤ 1 / 100 := by norm_num
    exact tiny.trans (small.trans (by linarith))
  have error := abs_le.mp (Binary64.roundPos_relative_error normal)
  have result : Binary64.roundPos (cents / 100) = v := by
    simp only [Binary64.round, valuePositive.ne', ↓reduceIte, abs_of_pos valuePositive,
      valuePositive.not_gt] at rounds
    split at rounds
    · exact Option.some.inj rounds
    · cases rounds
  rw [result] at error
  have factor : (2 : ℚ) ^ (-53 : ℤ) ≤ 1 / 4 * (1 / 10 ^ 15) := by norm_num
  have relative : (2 : ℚ) ^ (-53 : ℤ) * (cents / 100) ≤ 1 / 4 * (1 / 10 ^ 15) * (cents / 100) :=
    mul_le_mul_of_nonneg_right factor valuePositive.le
  have range : (cents : ℚ) / 100 ≤ 2 * 10 ^ 13 := by linarith [error.1]
  apply Decimal.hundredths_eq
  rw [abs_lt]
  push_cast
  constructor <;> linarith [error.1, error.2]

/-- A whole number, or one whose text has at most two characters after the point. -/
def TwoDecimals (number : Number) : Prop :=
  number.val = ⌊number.val⌋ ∨
    ∃ part, secondPart number.toString.toList = some part ∧ part.length ≤ 2

/-- A whole number needs no digit after the point. -/
theorem candidate_whole {v : ℚ} (positive : 0 < v) (exact : Binary64.Representable v)
    (whole : v = ⌊v⌋) : ∃ count : ℕ, 0 < count ∧ decimalPoint v = count ∧
      (candidate v count).isSome = true := by
  have one : (1 : ℚ) ≤ v := by
    rw [whole] at positive ⊢
    have : 0 < ⌊v⌋ := by exact_mod_cast positive
    exact_mod_cast this
  have log : 0 ≤ Int.log 10 v :=
    (Int.zpow_le_iff_le_log (by norm_num) positive).mp (by simpa using one)
  have nonneg : 0 ≤ decimalPoint v := by
    unfold decimalPoint
    omega
  obtain ⟨count, point⟩ := Int.eq_ofNat_of_zero_le nonneg
  refine ⟨count, by unfold decimalPoint at point; omega, point, ?_⟩
  apply candidate_isSome
  left
  have unit : (10 : ℚ) ^ (decimalPoint v - count) = 1 := by
    rw [point]
    simp
  have floor : ((⌊v⌋.toNat : ℕ) : ℚ) = v := by
    have nonneg : 0 ≤ ⌊v⌋ := Int.floor_nonneg.mpr positive.le
    rw [whole, Int.floor_intCast]
    exact_mod_cast Int.toNat_of_nonneg nonneg
  rw [unit, div_one, mul_one, floor]
  exact exact

/-- The text of an amount with at most two decimals, and its nearest hundredth,
denote the same decimal. -/
theorem literal_toString_of_twoDecimals {number : Number} (nonneg : 0 ≤ number.val)
    (bounded : number.val < 10 ^ 13) (places : number.TwoDecimals) :
    ∃ cents : ℕ, Decimal.literal number.toString.toList = some ((cents : ℚ) / 100) ∧
      Decimal.hundredths number.val = cents := by
  rcases nonneg.eq_or_lt with zero | positive
  · refine ⟨0, ?_, ?_⟩
    · simp only [toString, ← zero, ↓reduceIte]
      decide +kernel
    · rw [← zero]
      decide +kernel
  · obtain ⟨s, found, writes, fewest⟩ := shortest_spec positive number.representable
    obtain ⟨rounds, length, -, -⟩ := writes
    have text : number.toString.toList = layout (Nat.toDigits 10 s.digits) s.point := by
      simp only [toString, positive.ne', positive.not_gt, ↓reduceIte, String.toList_ofList,
        positiveText, found]
    have few : -2 ≤ s.point - (s.count : ℤ) := by
      rcases places with whole | ⟨part, second, short⟩
      · obtain ⟨count, some, point, candidates⟩ :=
          candidate_whole positive number.representable whole
        have limit : count ≤ 17 := by
          have log : Int.log 10 number.val < 13 :=
            (Int.lt_zpow_iff_log_lt (by norm_num) positive).mp (by exact_mod_cast bounded)
          unfold decimalPoint at point
          omega
        have := fewest count some limit candidates
        omega
      · rw [text] at second
        rw [← length]
        exact places_of_secondPart Nat.toDigits_ne_nil Decimal.isDigit_of_mem_toDigits second short
    obtain ⟨cents, value⟩ := value_of_places few
    have someCents : 0 < cents := by
      rcases Nat.eq_zero_or_pos cents with rfl | some
      · rw [value] at rounds
        simp only [Nat.cast_zero, zero_div] at rounds
        exact absurd (Option.some.inj rounds) positive.ne
      · exact some
    refine ⟨cents, ?_, ?_⟩
    · rw [text, literal_layout Nat.toDigits_ne_nil Decimal.isDigit_of_mem_toDigits,
        Decimal.value_toDigits, length]
      exact congrArg some value
    · rw [value] at rounds
      exact hundredths_eq_of_round bounded someCents rounds

/-- A natural number in the range of exact integers is written as itself. -/
theorem literal_toString_natCast {n : ℕ} {number : Number} (value : number.val = n)
    (small : n < 2 ^ 53) : Decimal.literal number.toString.toList = some (n : ℚ) := by
  rcases Nat.eq_zero_or_pos n with rfl | nonzero
  · have zero : number.val = 0 := by rw [value, Nat.cast_zero]
    simp only [toString, zero, ↓reduceIte, Nat.cast_zero]
    decide +kernel
  have positive : 0 < number.val := by
    rw [value]
    exact_mod_cast nonzero
  obtain ⟨s, found, writes, fewest⟩ := shortest_spec positive number.representable
  obtain ⟨rounds, length, -, -⟩ := writes
  have text : number.toString.toList = layout (Nat.toDigits 10 s.digits) s.point := by
    simp only [toString, positive.ne', positive.not_gt, ↓reduceIte, String.toList_ofList,
      positiveText, found]
  obtain ⟨count, someCount, point, candidates⟩ := candidate_whole positive number.representable
    (by rw [value, Int.floor_natCast, Int.cast_natCast])
  have limit : count ≤ 17 := by
    have bounded : number.val < 10 ^ 16 := by
      rw [value]
      exact_mod_cast small.trans (by norm_num : 2 ^ 53 < 10 ^ 16)
    have log : Int.log 10 number.val < 16 :=
      (Int.lt_zpow_iff_log_lt (by norm_num) positive).mp (by exact_mod_cast bounded)
    unfold decimalPoint at point
    omega
  -- The shortest digits have none behind the point, so they denote a natural number.
  obtain ⟨k, shift⟩ := Int.eq_ofNat_of_zero_le
    (by have := fewest count someCount limit candidates; omega : 0 ≤ s.point - s.count)
  have whole : s.value = ((s.digits * 10 ^ k : ℕ) : ℚ) := by
    rw [Shortest.value, shift]
    push_cast
    rfl
  have same : s.value = n := by
    rw [whole, value] at rounds
    by_cases exact : s.digits * 10 ^ k < 2 ^ 53
    · rw [whole]
      exact Option.some.inj ((Binary64.representable_natCast exact).symm.trans rounds)
    · obtain ⟨v, below, power⟩ := Binary64.round_mono (by positivity)
        (by exact_mod_cast not_lt.mp exact : (2 ^ 53 : ℚ) ≤ ((s.digits * 10 ^ k : ℕ) : ℚ)) rounds
      cases power.symm.trans (by decide +kernel : Binary64.round (2 ^ 53) = some (2 ^ 53))
      have large : 2 ^ 53 ≤ n := by exact_mod_cast below
      omega
  rw [text, literal_layout Nat.toDigits_ne_nil Decimal.isDigit_of_mem_toDigits,
    Decimal.value_toDigits, length]
  exact congrArg Option.some same

/-! ## Reading `toFixed(2)` back -/

theorem literal_toFixed2 {number : Number} (nonneg : 0 ≤ number.val)
    (bounded : number.val < 10 ^ 21) :
    number.toFixed2 = String.ofList (Decimal.fixed2 (Decimal.hundredths number.val).toNat) ∧
      Decimal.literal number.toFixed2.toList =
        some ((Decimal.hundredths number.val : ℚ) / 100) := by
  have text : number.toFixed2 =
      String.ofList (Decimal.fixed2 (Decimal.hundredths number.val).toNat) := by
    simp only [toFixed2, abs_of_nonneg nonneg, bounded.not_ge, nonneg.not_gt, ↓reduceIte]
  refine ⟨text, ?_⟩
  have cast : (((Decimal.hundredths number.val).toNat : ℕ) : ℚ) =
      Decimal.hundredths number.val := by
    exact_mod_cast Int.toNat_of_nonneg (Decimal.hundredths_nonneg nonneg)
  rw [text, String.toList_ofList, Decimal.literal_fixed2, cast]

/-- From `10 ^ 21` on, where `toFixed(2)` falls back to `String(value)`, the text
denotes a number of at least that size. -/
theorem literal_toFixed2_large {number : Number} (large : 10 ^ 21 ≤ number.val) :
    ∃ q, Decimal.literal number.toFixed2.toList = some q ∧ 10 ^ 21 ≤ q := by
  have positive : 0 < number.val := lt_of_lt_of_le (by positivity) large
  obtain ⟨s, found, writes, -⟩ := shortest_spec positive number.representable
  have text : number.toFixed2.toList = layout (Nat.toDigits 10 s.digits) s.point := by
    simp only [toFixed2, abs_of_pos positive, large, positive.not_gt, ↓reduceIte,
      String.toList_ofList, positiveText, found]
  refine ⟨s.value, ?_, ?_⟩
  · rw [text, literal_layout Nat.toDigits_ne_nil Decimal.isDigit_of_mem_toDigits,
      Decimal.value_toDigits, writes.length]
    rfl
  · have log : 21 ≤ Int.log 10 number.val :=
      (Int.zpow_le_iff_le_log (by norm_num) positive).mp (by exact_mod_cast large)
    have scale : 21 ≤ s.point - 1 := by
      have := writes.point
      unfold decimalPoint at this
      omega
    calc (10 : ℚ) ^ 21 = 10 ^ (21 : ℤ) := by norm_num
      _ ≤ 10 ^ (s.point - 1) := zpow_le_zpow_right₀ (by norm_num) scale
      _ ≤ s.value := writes.le_value

theorem toFixed2_head {number : Number} (nonneg : 0 ≤ number.val) :
    number.toFixed2.toList ≠ [] ∧ ∀ c ∈ number.toFixed2.toList.head?, c.isDigit = true := by
  by_cases bounded : number.val < 10 ^ 21
  · rw [(literal_toFixed2 nonneg bounded).1, String.toList_ofList]
    exact ⟨Decimal.fixed2_ne_nil _, Decimal.isDigit_head_fixed2 _⟩
  · have large : 10 ^ 21 ≤ number.val := not_lt.mp bounded
    have positive : 0 < number.val := lt_of_lt_of_le (by positivity) large
    obtain ⟨s, found, -, -⟩ := shortest_spec positive number.representable
    have text : number.toFixed2.toList = positiveText number.val := by
      simp only [toFixed2, abs_of_pos positive, large, positive.not_gt, ↓reduceIte,
        String.toList_ofList]
    rw [text]
    exact positiveText_head found

/-! ## Hundredths as Numbers -/

/-- Of the hundredths that round to a number its shortest digits need no more decimals. -/
theorem places_of_round {n : ℕ} {v : ℚ} (positive : 0 < v) (exact : Binary64.Representable v)
    (rounded : Binary64.round ((n : ℚ) / 100) = some v) :
    ∃ s, shortest v = some s ∧ s.Writes v ∧ -2 ≤ s.point - (s.count : ℤ) := by
  obtain ⟨s, found, writes, fewest⟩ := shortest_spec positive exact
  refine ⟨s, found, writes, ?_⟩
  by_cases large : 15 ≤ decimalPoint v
  · have := fewest 17 (by decide) le_rfl (candidate_seventeen positive exact)
    push_cast at this
    omega
  have point : -1 ≤ decimalPoint v := by
    have some : 1 ≤ n := by
      rw [Nat.one_le_iff_ne_zero]
      rintro rfl
      rw [Nat.cast_zero, zero_div] at rounded
      exact positive.ne (Option.some.inj rounded)
    have hundredth : (1 / 100 : ℚ) ≤ n / 100 :=
      div_le_div_of_nonneg_right (by exact_mod_cast some) (by norm_num)
    obtain ⟨w, le, smallest⟩ := Binary64.round_mono (by norm_num) hundredth rounded
    -- One hundredth is rounded up.
    have exact : Binary64.round (1 / 100) = .some (5764607523034235 / 576460752303423488) := by
      decide +kernel
    obtain rfl := Option.some.inj (exact.symm.trans smallest)
    have log : -2 ≤ Int.log 10 v := by
      apply (Int.zpow_le_iff_le_log (by norm_num) positive).mp
      refine le_trans ?_ le
      norm_num
    unfold decimalPoint
    omega
  obtain ⟨count, places⟩ : ∃ count : ℕ, (count : ℤ) = decimalPoint v + 2 :=
    ⟨(decimalPoint v + 2).toNat, by omega⟩
  have candidates : (candidate v count).isSome = true := by
    apply candidate_isSome
    intro unit low
    obtain ⟨-, -, below, above⟩ := low_bounds positive (by omega : 0 < count)
    have hundredth : unit = 1 / 100 := by
      have exponent : decimalPoint v - count = -2 := by omega
      change (10 : ℚ) ^ (decimalPoint v - count) = _
      rw [exponent]
      norm_num
    change (low : ℚ) * unit ≤ v at below
    change v < (low + 1) * unit at above
    rw [hundredth] at below above ⊢
    rcases Nat.lt_or_ge low n with higher | lower
    · right
      have le : ((low : ℚ) + 1) * (1 / 100) ≤ n / 100 := by
        have cast : ((low : ℚ) + 1) ≤ n := by exact_mod_cast higher
        linarith
      exact Binary64.round_between_above rounded positive.le above.le le
    · left
      have le : (n : ℚ) / 100 ≤ low * (1 / 100) := by
        have cast : (n : ℚ) ≤ low := by exact_mod_cast lower
        linarith
      exact Binary64.round_between (by positivity) rounded le below
  have := fewest count (by omega) (by omega) candidates
  omega

/-- At most two places behind the point are at most two characters behind it. -/
theorem secondPart_layout {digits : List Char} (all : ∀ c ∈ digits, c.isDigit = true) {point : ℤ}
    (behind : point < digits.length) (places : -2 ≤ point - (digits.length : ℤ))
    (scale : point ≤ 21) :
    ∃ part, secondPart (layout digits point) = some part ∧ part.length ≤ 2 := by
  have noPoint := point_not_mem all
  unfold layout
  split
  next plain => omega
  next =>
    split
    next within =>
      rw [secondPart_append fun member => noPoint (List.mem_of_mem_take member), secondPart_point]
      refine ⟨_, rfl, (List.takeWhile_sublist _).length_le.trans ?_⟩
      rw [List.length_drop]
      omega
    next =>
      split
      next leading =>
        rw [← List.singleton_append, secondPart_append (by decide), secondPart_point]
        refine ⟨_, rfl, (List.takeWhile_sublist _).length_le.trans ?_⟩
        rw [List.length_append, List.length_replicate]
        omega
      next => omega

/-- The Number of a nonnegative number of hundredths has at most two decimals. -/
theorem twoDecimals_of_ofRat {n : ℕ} {number : Number}
    (found : ofRat ((n : ℚ) / 100) = some number) : number.TwoDecimals ∧ 0 ≤ number.val := by
  have rounded := round_of_ofRat found
  have nonneg : 0 ≤ number.val := Binary64.round_nonneg (by positivity) rounded
  refine ⟨?_, nonneg⟩
  by_cases whole : number.val = ⌊number.val⌋
  · exact Or.inl whole
  right
  have positive : 0 < number.val := by
    refine lt_of_le_of_ne nonneg fun zero => whole ?_
    rw [← zero]
    simp
  obtain ⟨s, shortestFound, writes, places⟩ :=
    places_of_round positive number.representable rounded
  have text : number.toString.toList = layout (Nat.toDigits 10 s.digits) s.point := by
    simp only [toString, positive.ne', positive.not_gt, ↓reduceIte, String.toList_ofList,
      positiveText, shortestFound]
  -- A number that is not whole has a digit behind the point.
  have behind : s.point < s.count := by
    by_contra front
    apply whole
    obtain ⟨k, shift⟩ := Int.eq_ofNat_of_zero_le (sub_nonneg.mpr (not_lt.mp front))
    have value : s.value = ((s.digits * 10 ^ k : ℕ) : ℚ) := by
      rw [Shortest.value, shift]
      push_cast
      rfl
    have roundsWhole := writes.rounds
    rw [value] at roundsWhole
    exact Binary64.whole_of_round_natCast roundsWhole
  have digits : ∀ c ∈ Nat.toDigits 10 s.digits, c.isDigit = true :=
    Decimal.isDigit_of_mem_toDigits
  have length := writes.length
  have scale : s.point ≤ 21 := by
    by_contra large
    refine whole (Binary64.whole_of_round_large ?_ writes.rounds)
    calc (2 ^ 53 : ℚ) ≤ 10 ^ (21 : ℤ) := by norm_num
      _ ≤ 10 ^ (s.point - 1) := zpow_le_zpow_right₀ (by norm_num) (by omega)
      _ ≤ s.value := writes.le_value
  rw [text]
  exact secondPart_layout digits (by omega) (by omega) scale

end Number

end BirrTrack.Js
