import BirrTrack.Js.Number
import Mathlib.Data.List.TakeWhile

/-! # The texts of hundredths

An amount leaves the database as a decimal with two places and is handed on as the Number nearest
to it. `toFixed(2)` writes that decimal again (`toFixed2_of_ofRat`); `String` does so unless the
decimal ends in a zero (`toString_eq_fixed2_iff`).
-/

namespace BirrTrack.Js

namespace Number

/-- Of the multiples of a unit that round to a number its shortest digits need no finer unit. -/
theorem fewest_of_round {v : ℚ} {n count : ℕ} (positive : 0 < v) (exact : Binary64.Representable v)
    (positiveCount : 0 < count) (atMost : count ≤ 17)
    (rounded : Binary64.round (n * 10 ^ (decimalPoint v - count)) = some v) :
    ∃ s, shortest v = some s ∧ s.Writes v ∧ decimalPoint v - count ≤ s.point - s.count := by
  obtain ⟨s, found, writes, fewest⟩ := shortest_spec positive exact
  refine ⟨s, found, writes, fewest count positiveCount atMost ?_⟩
  apply candidate_isSome
  intro unit low
  obtain ⟨-, -, below, above⟩ := low_bounds positive positiveCount
  change (low : ℚ) * unit ≤ v at below
  change v < (low + 1) * unit at above
  have unitPositive : 0 < unit := by positivity
  rcases Nat.lt_or_ge low n with higher | lower
  · right
    have le : ((low : ℚ) + 1) * unit ≤ n * unit :=
      mul_le_mul_of_nonneg_right (by exact_mod_cast higher) unitPositive.le
    exact Binary64.round_between_above rounded positive.le above.le le
  · left
    have le : (n : ℚ) * unit ≤ low * unit :=
      mul_le_mul_of_nonneg_right (by exact_mod_cast lower) unitPositive.le
    exact Binary64.round_between (by positivity) rounded le below

/-! ## The nearest Number -/

theorem exists_round_hundredths {n : ℕ} (small : n < 10 ^ 15) :
    ∃ v, Binary64.round ((n : ℚ) / 100) = some v ∧ |v - n / 100| < 1 / 200 := by
  rcases n.eq_zero_or_pos with rfl | positive
  · exact ⟨0, by rw [Nat.cast_zero, zero_div]; rfl, by norm_num⟩
  have one : (1 : ℚ) ≤ n := by exact_mod_cast positive
  have bounded : (n : ℚ) < 10 ^ 15 := by exact_mod_cast small
  have tiny : (2 : ℚ) ^ (-1022 : ℤ) ≤ 2 ^ (-7 : ℤ) := zpow_le_zpow_right₀ one_le_two (by norm_num)
  have hundredth : (2 : ℚ) ^ (-7 : ℤ) ≤ 1 / 100 := by norm_num
  have range : (n : ℚ) / 100 < 2 ^ 1023 := by
    calc (n : ℚ) / 100 < 2 ^ 50 := by linarith
      _ ≤ 2 ^ 1023 := pow_le_pow_right₀ one_le_two (by norm_num)
  obtain ⟨v, rounded, error⟩ := @Binary64.round_relative_error ((n : ℚ) / 100)
    (tiny.trans (hundredth.trans (by linarith))) range
  refine ⟨v, rounded, error.trans_lt ?_⟩
  have factor : (2 : ℚ) ^ (-53 : ℤ) < 1 / (8 * 10 ^ 15) := by norm_num
  calc (2 : ℚ) ^ (-53 : ℤ) * (n / 100) < 1 / (8 * 10 ^ 15) * (n / 100) :=
        mul_lt_mul_of_pos_right factor (by linarith)
    _ ≤ 1 / 200 := by linarith

/-- The Number of a decimal with two places is nearer to it than to any other. -/
theorem exists_ofRat {cents : ℤ} (small : |cents| < 10 ^ 15) :
    ∃ number, ofRat ((cents : ℚ) / 100) = some number ∧
      Decimal.hundredths number.val = cents := by
  obtain ⟨n, rfl | rfl⟩ := cents.eq_nat_or_neg
  · rw [Nat.abs_cast] at small
    obtain ⟨v, rounded, near⟩ := exists_round_hundredths (by exact_mod_cast small : n < 10 ^ 15)
    refine ⟨⟨v, Binary64.representable_of_round rounded⟩, ofRat_eq_some ?_, ?_⟩
    · rw [Int.cast_natCast]
      exact rounded
    · refine Decimal.hundredths_eq ?_
      rw [Int.cast_natCast]
      exact near
  · rw [abs_neg, Nat.abs_cast] at small
    obtain ⟨v, rounded, near⟩ := exists_round_hundredths (by exact_mod_cast small : n < 10 ^ 15)
    have opposite : Binary64.round (((-(n : ℤ) : ℤ) : ℚ) / 100) = some (-v) := by
      rw [Int.cast_neg, Int.cast_natCast, neg_div, Binary64.round_neg, rounded]
      rfl
    refine ⟨⟨-v, Binary64.representable_of_round opposite⟩, ofRat_eq_some opposite, ?_⟩
    refine Decimal.hundredths_eq ?_
    have distance : -v - ((-(n : ℤ) : ℤ) : ℚ) / 100 = -(v - n / 100) := by
      push_cast
      ring
    rw [distance, abs_neg]
    exact near

section Range

variable {n : ℕ} {number : Number}

theorem ofRat_bounded (small : n < 10 ^ 14) (found : ofRat ((n : ℚ) / 100) = some number) :
    number.val < 10 ^ 13 := by
  have exact : Binary64.round (10 ^ 12) = some (10 ^ 12) := by
    exact_mod_cast @Binary64.representable_natCast (10 ^ 12) (by norm_num)
  have le : (n : ℚ) / 100 ≤ 10 ^ 12 := by
    have cast : (n : ℚ) ≤ 10 ^ 14 := by exact_mod_cast small.le
    linarith
  obtain ⟨v, below, rounded⟩ := Binary64.round_mono (by positivity) le exact
  rw [Option.some.inj ((round_of_ofRat found).symm.trans rounded)]
  linarith

theorem hundredths_of_ofRat (small : n < 10 ^ 14) (found : ofRat ((n : ℚ) / 100) = some number) :
    Decimal.hundredths number.val = n := by
  have range : |(n : ℤ)| < 10 ^ 15 := by
    rw [Nat.abs_cast]
    exact_mod_cast small.trans (by norm_num)
  obtain ⟨other, otherFound, same⟩ := exists_ofRat range
  rw [Int.cast_natCast, found] at otherFound
  cases otherFound
  exact same

theorem toFixed2_of_ofRat (small : n < 10 ^ 14) (found : ofRat ((n : ℚ) / 100) = some number) :
    number.toFixed2 = String.ofList (Decimal.fixed2 n) := by
  have nonneg := (twoDecimals_of_ofRat found).2
  have bounded : number.val < 10 ^ 21 := (ofRat_bounded small found).trans (by norm_num)
  rw [(literal_toFixed2 nonneg bounded).1, hundredths_of_ofRat small found, Int.toNat_natCast]

end Range

/-! ## Written without `toFixed` -/

/-- With two places the layout of a whole number's digits is its decimal with two places. -/
theorem layout_fixed2 {n : ℕ} (positive : 0 < n) (small : n < 10 ^ 14) :
    layout (Nat.toDigits 10 n) ((Nat.toDigits 10 n).length - 2) = Decimal.fixed2 n := by
  rcases Nat.lt_or_ge n 100 with below | above
  · have each : ∀ n : Fin 100, 0 < n.val → layout (Nat.toDigits 10 n.val)
        ((Nat.toDigits 10 n.val).length - 2) = Decimal.fixed2 n.val := by decide +kernel
    exact each ⟨n, below⟩ positive
  · have high : 0 < n / 100 := by omega
    have digits : Nat.toDigits 10 n =
        Nat.toDigits 10 (n / 100) ++ Decimal.padded 2 (n % 100) := by
      have whole : 10 ^ 2 * (n / 100) + n % 100 = n := Nat.div_add_mod n 100
      rw [Decimal.toDigits_append_padded high 2 (n % 100) (Nat.mod_lt n (by decide)), whole]
    have length : (Nat.toDigits 10 (n / 100)).length ≤ 12 :=
      (Nat.length_toDigits_le_iff (by decide) (by decide)).mpr (by omega)
    have some : 0 < (Nat.toDigits 10 (n / 100)).length := Nat.length_toDigits_pos
    have point : ((Nat.toDigits 10 n).length : ℤ) - 2 = (Nat.toDigits 10 (n / 100)).length := by
      rw [digits, List.length_append, Decimal.length_padded]
      push_cast
      ring
    rw [point, digits, layout, if_neg, if_pos, Int.toNat_natCast, List.take_left', List.drop_left']
    · rfl
    · rfl
    · rfl
    · omega
    · rw [List.length_append, Decimal.length_padded]
      omega

/-- The layout of digits has no more characters behind the point than places. -/
theorem length_secondPart_layout {digits part : List Char} {places : ℕ}
    (all : ∀ c ∈ digits, c.isDigit = true) {point : ℤ} (behind : digits.length - point ≤ places)
    (low : -6 < point) (high : point ≤ 21)
    (second : secondPart (layout digits point) = some part) : part.length ≤ places := by
  have noPoint := point_not_mem all
  unfold layout at second
  split at second
  next plain =>
    have zeros : '.' ∉ List.replicate (point - digits.length).toNat '0' := by
      intro member
      exact absurd (List.eq_of_mem_replicate member) (by decide)
    rw [secondPart_append noPoint, ← List.append_nil (List.replicate _ _),
      secondPart_append zeros] at second
    cases second
  next =>
    split at second
    next within =>
      rw [secondPart_append fun member => noPoint (List.mem_of_mem_take member),
        secondPart_point] at second
      cases second
      refine (List.takeWhile_sublist _).length_le.trans ?_
      rw [List.length_drop]
      omega
    next =>
      split at second
      next leading =>
        rw [← List.singleton_append, secondPart_append (by decide), secondPart_point] at second
        cases second
        refine (List.takeWhile_sublist _).length_le.trans ?_
        rw [List.length_append, List.length_replicate]
        omega
      next => omega

theorem secondPart_fixed2 (n : ℕ) :
    secondPart (Decimal.fixed2 n) = some (Decimal.padded 2 (n % 100)) := by
  have whole := point_not_mem (Decimal.isDigit_of_mem_toDigits (n := n / 100))
  have cents : ∀ c ∈ Decimal.padded 2 (n % 100), decide (c ≠ '.') = true := by
    intro c member
    refine decide_eq_true ?_
    rintro rfl
    exact point_not_mem (fun _ => Decimal.isDigit_of_mem_padded) member
  rw [Decimal.fixed2, secondPart_append whole, secondPart_point,
    List.takeWhile_eq_self_iff.mpr cents]

section Text

variable {n : ℕ} {number : Number}

theorem toList_toString (positive : 0 < number.val) {s : Shortest}
    (found : shortest number.val = some s) :
    number.toString.toList = layout (Nat.toDigits 10 s.digits) s.point := by
  simp only [toString, positive.ne', positive.not_gt, ↓reduceIte, String.toList_ofList,
    positiveText, found]

theorem pos_of_ofRat (positive : 0 < n) (found : ofRat ((n : ℚ) / 100) = some number) :
    0 < number.val := by
  have one : (1 : ℚ) ≤ n := by exact_mod_cast positive
  have tiny : (2 : ℚ) ^ (-1022 : ℤ) ≤ 2 ^ (-7 : ℤ) := zpow_le_zpow_right₀ one_le_two (by norm_num)
  have hundredth : (2 : ℚ) ^ (-7 : ℤ) ≤ 1 / 100 := by norm_num
  refine Binary64.round_pos ?_ (round_of_ofRat found)
  exact tiny.trans (hundredth.trans (by linarith))

/-- The shortest digits of a decimal with two places are its own, up to zeros at the end. -/
theorem shortest_of_ofRat (positive : 0 < n) (small : n < 10 ^ 14)
    (found : ofRat ((n : ℚ) / 100) = some number) :
    ∃ s, ∃ k : ℕ, shortest number.val = some s ∧ s.Writes number.val ∧
      s.point - (s.count : ℤ) = k - 2 ∧ n = s.digits * 10 ^ k := by
  obtain ⟨s, shortestFound, writes, places⟩ := places_of_round (pos_of_ofRat positive found)
    number.representable (round_of_ofRat found)
  obtain ⟨k, shift⟩ : ∃ k : ℕ, s.point - (s.count : ℤ) = k - 2 :=
    ⟨(s.point - (s.count : ℤ) + 2).toNat, by omega⟩
  refine ⟨s, k, shortestFound, writes, shift, ?_⟩
  have value : s.value = ((s.digits * 10 ^ k : ℕ) : ℚ) / 100 := by
    rw [Shortest.value, shift, zpow_sub₀ (by norm_num), zpow_natCast]
    push_cast
    ring
  have rounds := writes.rounds
  rw [value] at rounds
  have some : 0 < s.digits := lt_of_lt_of_le (by positivity) writes.lead
  have same := hundredths_eq_of_round (ofRat_bounded small found) (by positivity) rounds
  rw [hundredths_of_ofRat small found] at same
  exact_mod_cast same

/-- A decimal with one place has a shortest text with at most one. -/
theorem places_of_ten_dvd (positive : 0 < n) (small : n < 10 ^ 14) (ten : 10 ∣ n)
    (found : ofRat ((n : ℚ) / 100) = some number) {s : Shortest}
    (shortestFound : shortest number.val = some s) : -1 ≤ s.point - (s.count : ℤ) := by
  have above := pos_of_ofRat positive found
  obtain ⟨tenths, rfl⟩ := ten
  have tenth : 1 / 10 ≤ number.val := by
    have le : (1 / 10 : ℚ) ≤ ((10 * tenths : ℕ) : ℚ) / 100 := by
      have one : (1 : ℚ) ≤ tenths := by exact_mod_cast (by omega : 1 ≤ tenths)
      push_cast
      linarith
    obtain ⟨w, below, rounded⟩ := Binary64.round_mono (by norm_num) le (round_of_ofRat found)
    -- One tenth is rounded up.
    have exact : Binary64.round (1 / 10) = some (3602879701896397 / 36028797018963968) := by
      decide +kernel
    obtain rfl := Option.some.inj (exact.symm.trans rounded)
    exact le_trans (by norm_num) below
  have low : -1 ≤ Int.log 10 number.val :=
    (Int.zpow_le_iff_le_log (by norm_num) above).mp (le_trans (by norm_num) tenth)
  have high : Int.log 10 number.val < 13 :=
    (Int.lt_zpow_iff_log_lt (by norm_num) above).mp (by exact_mod_cast ofRat_bounded small found)
  obtain ⟨count, point⟩ : ∃ count : ℕ, (count : ℤ) = decimalPoint number.val + 1 :=
    ⟨(decimalPoint number.val + 1).toNat, by unfold decimalPoint; omega⟩
  have rounded : Binary64.round (tenths * 10 ^ (decimalPoint number.val - count)) =
      some number.val := by
    have unit : decimalPoint number.val - count = -1 := by omega
    rw [unit, ← round_of_ofRat found]
    congr 1
    push_cast
    rw [zpow_neg_one]
    ring
  unfold decimalPoint at point
  obtain ⟨other, otherFound, -, fewest⟩ :=
    fewest_of_round above number.representable (by omega) (by omega) rounded
  rw [shortestFound] at otherFound
  cases otherFound
  unfold decimalPoint at fewest
  omega

/-- Without `toFixed` an amount is written with two places unless its last one is a zero. -/
theorem toString_eq_fixed2_iff (small : n < 10 ^ 14)
    (found : ofRat ((n : ℚ) / 100) = some number) :
    number.toString = String.ofList (Decimal.fixed2 n) ↔ ¬ 10 ∣ n := by
  rcases n.eq_zero_or_pos with rfl | positive
  · have rounded := round_of_ofRat found
    rw [Nat.cast_zero, zero_div] at rounded
    have zero : number.val = 0 := (Option.some.inj rounded).symm
    refine iff_of_false ?_ (by decide)
    rw [toString, if_pos zero]
    decide
  obtain ⟨s, k, shortestFound, writes, shift, digits⟩ := shortest_of_ofRat positive small found
  have text := toList_toString (pos_of_ofRat positive found) shortestFound
  refine ⟨?_, ?_⟩
  · intro same ten
    have places := places_of_ten_dvd positive small ten found shortestFound
    have scale : s.count - 1 + k < 14 := by
      apply (Nat.pow_lt_pow_iff_right (by decide : 1 < 10)).mp
      calc 10 ^ (s.count - 1 + k) = 10 ^ (s.count - 1) * 10 ^ k := pow_add _ _ _
        _ ≤ s.digits * 10 ^ k := Nat.mul_le_mul_right _ writes.lead
        _ < 10 ^ 14 := digits ▸ small
    have some : 0 < s.count := writes.length ▸ Nat.length_toDigits_pos
    rw [same, String.toList_ofList] at text
    have second := secondPart_fixed2 n
    rw [text] at second
    have behind : ((Nat.toDigits 10 s.digits).length : ℤ) - s.point ≤ (1 : ℕ) := by
      rw [writes.length]
      push_cast
      omega
    have one := length_secondPart_layout Decimal.isDigit_of_mem_toDigits behind (by omega)
      (by omega) second
    rw [Decimal.length_padded] at one
    omega
  · intro notTen
    have none : k = 0 := by
      by_contra more
      refine notTen (digits ▸ Dvd.dvd.mul_left ?_ _)
      exact dvd_pow_self 10 more
    subst none
    rw [pow_zero, mul_one] at digits
    have point : s.point = ((Nat.toDigits 10 n).length : ℤ) - 2 := by
      rw [digits, writes.length]
      push_cast at shift
      omega
    rw [← String.toList_inj, text, String.toList_ofList, ← digits, point]
    exact layout_fixed2 positive small

end Text

end Number

end BirrTrack.Js
