import Mathlib.Data.Int.Log
import Mathlib.Data.Rat.Floor
import Mathlib.Algebra.Order.Floor.Semifield
import Mathlib.Algebra.Order.Field.Power
import Mathlib.Tactic.Linarith
import Mathlib.Tactic.Ring
import Mathlib.Tactic.NormNum
import Mathlib.Tactic.Positivity

/-! # Rounding to binary64

`round` is the IEEE 754 rounding of a rational number to binary64, to nearest
with ties to even; a result beyond the largest finite number has no value. In
the normal range the relative error is at most `2 ^ -53` (`round_error`), and a
number close enough to a representable one rounds to it (`roundPos_near`).
-/

namespace Binary64

/-- The nearest integer, the even one when two are equally near. -/
def nearestEven (x : ℚ) : ℤ :=
  if x - ⌊x⌋ < 1 / 2 then ⌊x⌋
  else if 1 / 2 < x - ⌊x⌋ then ⌊x⌋ + 1
  else if ⌊x⌋ % 2 = 0 then ⌊x⌋ else ⌊x⌋ + 1

theorem nearestEven_error (x : ℚ) : |(nearestEven x : ℚ) - x| ≤ 1 / 2 := by
  have below := Int.floor_le x
  have above := Int.lt_floor_add_one x
  rw [abs_le, nearestEven]
  split
  · constructor <;> linarith
  · split
    · push_cast
      constructor <;> linarith
    · split
      · constructor <;> linarith
      · push_cast
        constructor <;> linarith

theorem nearestEven_eq {x : ℚ} {m : ℤ} (near : |x - m| < 1 / 2) : nearestEven x = m := by
  have error := abs_le.mp (nearestEven_error x)
  have close := abs_lt.mp near
  have upper : (nearestEven x : ℚ) < m + 1 := by linarith [error.2, close.2]
  have lower : (m : ℚ) - 1 < nearestEven x := by linarith [error.1, close.1]
  have upper' : nearestEven x < m + 1 := by exact_mod_cast upper
  have lower' : m - 1 < nearestEven x := by exact_mod_cast lower
  omega

/-- The exponent of the last place of the binary64 numbers around `q`. -/
def lastPlace (q : ℚ) : ℤ := max (Int.log 2 q - 52) (-1074)

/-- The rounding of a positive number, before the check for overflow. -/
def roundPos (q : ℚ) : ℚ := nearestEven (q / 2 ^ lastPlace q) * 2 ^ lastPlace q

/-- The binary64 number nearest to `q`; none when that is an infinity. -/
def round (q : ℚ) : Option ℚ :=
  if q = 0 then some 0
  else
    let magnitude := roundPos |q|
    if magnitude < 2 ^ 1024 then some (if q < 0 then -magnitude else magnitude) else none

/-- The finite binary64 numbers. -/
def Representable (q : ℚ) : Prop := round q = some q

instance (q : ℚ) : Decidable (Representable q) := inferInstanceAs (Decidable (_ = _))

/-- A positive number lies in its binade. -/
theorem pow_log_le {q : ℚ} (positive : 0 < q) : (2 : ℚ) ^ Int.log 2 q ≤ q := by
  exact_mod_cast Int.zpow_log_le_self (by norm_num) positive

theorem lt_pow_log_succ (q : ℚ) : q < (2 : ℚ) ^ (Int.log 2 q + 1) := by
  exact_mod_cast Int.lt_zpow_succ_log_self (by norm_num) q

theorem roundPos_error (q : ℚ) : |roundPos q - q| ≤ 2 ^ lastPlace q / 2 := by
  have unit : (0 : ℚ) < 2 ^ lastPlace q := by positivity
  have error := nearestEven_error (q / 2 ^ lastPlace q)
  have scaled : roundPos q - q =
      (nearestEven (q / 2 ^ lastPlace q) - q / 2 ^ lastPlace q) * 2 ^ lastPlace q := by
    rw [sub_mul, div_mul_cancel₀ _ unit.ne']
    rfl
  rw [scaled, abs_mul, abs_of_pos unit]
  nlinarith

/-- In the normal range rounding has relative error at most `2 ^ -53`. -/
theorem roundPos_relative_error {q : ℚ} (normal : 2 ^ (-1022 : ℤ) ≤ q) :
    |roundPos q - q| ≤ 2 ^ (-53 : ℤ) * q := by
  have positive : 0 < q := lt_of_lt_of_le (by positivity) normal
  have exponent : -1022 ≤ Int.log 2 q :=
    (Int.zpow_le_iff_le_log (by norm_num) positive).mp (by exact_mod_cast normal)
  have place : lastPlace q = Int.log 2 q - 52 := max_eq_left (by omega)
  have below : (2 : ℚ) ^ Int.log 2 q ≤ q := pow_log_le positive
  have half : (2 : ℚ) ^ lastPlace q / 2 = 2 ^ (-53 : ℤ) * 2 ^ Int.log 2 q := by
    rw [place, ← zpow_add₀ two_ne_zero, div_eq_mul_inv, ← zpow_sub_one₀ two_ne_zero]
    congr 1
    ring
  refine (roundPos_error q).trans ?_
  rw [half]
  exact mul_le_mul_of_nonneg_left below (by positivity)

/-- A positive number in the normal range and not too large rounds to a binary64
number within relative error `2 ^ -53`. -/
theorem round_relative_error {q : ℚ} (normal : 2 ^ (-1022 : ℤ) ≤ q) (bounded : q < 2 ^ 1023) :
    ∃ v, round q = some v ∧ |v - q| ≤ 2 ^ (-53 : ℤ) * q := by
  have positive : 0 < q := lt_of_lt_of_le (by positivity) normal
  have error := roundPos_relative_error normal
  have factor : (2 : ℚ) ^ (-53 : ℤ) ≤ 1 := by norm_num
  have fits : roundPos q < 2 ^ 1024 := by
    calc roundPos q ≤ q + 2 ^ (-53 : ℤ) * q := by linarith [(abs_le.mp error).2]
      _ ≤ 2 * q := by nlinarith
      _ < 2 * 2 ^ 1023 := mul_lt_mul_of_pos_left bounded two_pos
      _ = 2 ^ 1024 := (pow_succ' 2 1023).symm
  refine ⟨roundPos q, ?_, error⟩
  simp only [round, positive.ne', ↓reduceIte, abs_of_pos positive, fits, positive.not_gt]

/-- A positive representable number is a multiple of its last place. -/
theorem exists_multiple {v : ℚ} (positive : 0 < v) (exact : Representable v) :
    v < 2 ^ 1024 ∧ ∃ m : ℤ, v = m * 2 ^ lastPlace v := by
  unfold Representable round at exact
  simp only [positive.ne', ↓reduceIte, abs_of_pos positive, positive.not_gt] at exact
  split at exact
  next fits =>
    have same : roundPos v = v := Option.some.inj exact
    exact ⟨same ▸ fits, nearestEven (v / 2 ^ lastPlace v), same.symm⟩
  next => cases exact

/-- A number less than half a last place away from a multiple of it rounds to
that multiple. -/
theorem roundPos_eq {q v : ℚ} {m : ℤ} (multiple : v = m * 2 ^ lastPlace q)
    (near : |q - v| < 2 ^ lastPlace q / 2) : roundPos q = v := by
  have unit : (0 : ℚ) < 2 ^ lastPlace q := by positivity
  have close : |q / 2 ^ lastPlace q - m| < 1 / 2 := by
    have scaled : q / 2 ^ lastPlace q - m = (q - v) / 2 ^ lastPlace q := by
      rw [multiple, sub_div, mul_div_cancel_right₀ _ unit.ne']
    rw [scaled, abs_div, abs_of_pos unit, div_lt_iff₀ unit]
    linarith
  rw [roundPos, nearestEven_eq close, multiple]

/-- A power of two is a multiple of every smaller one. -/
theorem zpow_multiple {low high : ℤ} (le : low ≤ high) :
    ∃ k : ℤ, (2 : ℚ) ^ high = k * 2 ^ low := by
  obtain ⟨k, rfl⟩ := Int.le.dest le
  refine ⟨2 ^ k, ?_⟩
  rw [zpow_add₀ two_ne_zero, zpow_natCast, mul_comm]
  push_cast
  ring

/-- Multiples of a unit that differ by less than it are equal. -/
theorem multiple_eq {unit : ℚ} (positive : 0 < unit) {i j : ℤ}
    (near : |i * unit - j * unit| < unit) : i = j := by
  rw [← sub_mul, abs_mul, abs_of_pos positive] at near
  have small : |((i - j : ℤ) : ℚ)| < 1 := by
    push_cast
    exact (mul_lt_iff_lt_one_left positive).mp near
  have zero : |i - j| < 1 := by exact_mod_cast small
  have := Int.abs_lt_one_iff.mp zero
  omega

/-- A positive representable number is no less than its last place. -/
theorem lastPlace_le_log {v : ℚ} (positive : 0 < v) (exact : Representable v) :
    lastPlace v ≤ Int.log 2 v := by
  obtain ⟨-, m, multiple⟩ := exists_multiple positive exact
  have unit : (0 : ℚ) < 2 ^ lastPlace v := by positivity
  have nonzero : 0 < m := by
    have : (0 : ℚ) < m := by
      by_contra nonpos
      rw [multiple] at positive
      nlinarith
    exact_mod_cast this
  apply (Int.zpow_le_iff_le_log (by norm_num) positive).mp
  have : (1 : ℚ) ≤ m := by exact_mod_cast nonzero
  push_cast
  nlinarith

theorem near_lt_half_lastPlace (v : ℚ) : (2 : ℚ) ^ (-54 : ℤ) * v < 2 ^ lastPlace v / 2 := by
  have above := lt_pow_log_succ v
  calc (2 : ℚ) ^ (-54 : ℤ) * v < 2 ^ (-54 : ℤ) * 2 ^ (Int.log 2 v + 1) := by gcongr
    _ = 2 ^ (Int.log 2 v - 53) := by rw [← zpow_add₀ two_ne_zero]; congr 1; ring
    _ ≤ 2 ^ (lastPlace v - 1) := zpow_le_zpow_right₀ one_le_two (by unfold lastPlace; omega)
    _ = 2 ^ lastPlace v / 2 := by rw [zpow_sub_one₀ two_ne_zero, div_eq_mul_inv]

section Near
variable {q v : ℚ}

theorem pos_of_near (positive : 0 < v) (near : |q - v| < 2 ^ (-54 : ℤ) * v) : 0 < q := by
  have := abs_lt.mp near
  have factor : (2 : ℚ) ^ (-54 : ℤ) < 1 := by norm_num
  nlinarith [this.1]

/-- The binade above is a whole last place away. -/
theorem log_le_of_near (positive : 0 < v) (exact : Representable v)
    (near : |q - v| < 2 ^ (-54 : ℤ) * v) : Int.log 2 q ≤ Int.log 2 v := by
  obtain ⟨-, m, multiple⟩ := exists_multiple positive exact
  have unit : (0 : ℚ) < 2 ^ lastPlace v := by positivity
  have distance := abs_lt.mp (near.trans (near_lt_half_lastPlace v))
  by_contra higher
  have place := (lastPlace_le_log positive exact).trans (Int.le_add_one le_rfl)
  obtain ⟨k, power⟩ := zpow_multiple place
  have lowerQ : (2 : ℚ) ^ (Int.log 2 v + 1) ≤ q :=
    (zpow_le_zpow_right₀ one_le_two (by omega)).trans (pow_log_le (pos_of_near positive near))
  have aboveV := lt_pow_log_succ v
  have equal : m = k := by
    apply multiple_eq unit
    rw [← multiple, ← power, abs_of_nonpos (by linarith)]
    linarith [distance.2]
  rw [equal, ← power] at multiple
  exact absurd multiple aboveV.ne

/-- In the binade below, the number is the power of two between them. -/
theorem eq_pow_log_of_near (positive : 0 < v) (exact : Representable v)
    (near : |q - v| < 2 ^ (-54 : ℤ) * v) (lower : Int.log 2 q < Int.log 2 v) :
    v = 2 ^ Int.log 2 v := by
  obtain ⟨-, m, multiple⟩ := exists_multiple positive exact
  have unit : (0 : ℚ) < 2 ^ lastPlace v := by positivity
  have distance := abs_lt.mp (near.trans (near_lt_half_lastPlace v))
  have belowV := pow_log_le positive
  obtain ⟨k, power⟩ := zpow_multiple (lastPlace_le_log positive exact)
  have upperQ : q < (2 : ℚ) ^ Int.log 2 v :=
    (lt_pow_log_succ q).trans_le (zpow_le_zpow_right₀ one_le_two (by omega))
  have equal : m = k := by
    apply multiple_eq unit
    rw [← multiple, ← power, abs_of_nonneg (by linarith)]
    linarith [distance.1]
  rw [power, ← equal, ← multiple]

theorem roundPos_near_below (positive : 0 < v) (exact : Representable v)
    (near : |q - v| < 2 ^ (-54 : ℤ) * v) (lower : Int.log 2 q < Int.log 2 v) :
    roundPos q = v := by
  have boundary := eq_pow_log_of_near positive exact near lower
  have previous : Int.log 2 q = Int.log 2 v - 1 := by
    apply le_antisymm (by omega)
    apply (Int.zpow_le_iff_le_log (by norm_num) (pos_of_near positive near)).mp
    push_cast
    rw [zpow_sub_one₀ two_ne_zero, ← boundary]
    have factor : (2 : ℚ) ^ (-54 : ℤ) ≤ 2⁻¹ := by norm_num
    have small : |q - v| ≤ 2⁻¹ * v :=
      near.le.trans (mul_le_mul_of_nonneg_right factor positive.le)
    linarith [(abs_le.mp small).1]
  have place : lastPlace q ≤ Int.log 2 v ∧ Int.log 2 v - 53 ≤ lastPlace q := by
    have place_le := lastPlace_le_log positive exact
    unfold lastPlace at place_le ⊢
    omega
  obtain ⟨j, multipleQ⟩ := zpow_multiple place.1
  refine roundPos_eq (boundary.trans multipleQ) (near.trans_le ?_)
  calc (2 : ℚ) ^ (-54 : ℤ) * v = 2 ^ (-54 : ℤ) * 2 ^ Int.log 2 v := by rw [← boundary]
    _ = 2 ^ (Int.log 2 v - 54) := by rw [← zpow_add₀ two_ne_zero]; congr 1; ring
    _ ≤ 2 ^ (lastPlace q - 1) := zpow_le_zpow_right₀ one_le_two (by omega)
    _ = 2 ^ lastPlace q / 2 := by rw [zpow_sub_one₀ two_ne_zero, div_eq_mul_inv]

/-- Close to a representable number every number rounds to it. -/
theorem roundPos_near (positive : 0 < v) (exact : Representable v)
    (near : |q - v| < 2 ^ (-54 : ℤ) * v) : roundPos q = v := by
  rcases (log_le_of_near positive exact near).lt_or_eq with lower | same
  · exact roundPos_near_below positive exact near lower
  · obtain ⟨-, m, multiple⟩ := exists_multiple positive exact
    have place : lastPlace q = lastPlace v := by rw [lastPlace, same, lastPlace]
    have half := near_lt_half_lastPlace v
    rw [← place] at multiple half
    exact roundPos_eq multiple (near.trans half)

theorem round_near (positive : 0 < v) (exact : Representable v)
    (near : |q - v| < 2 ^ (-54 : ℤ) * v) : round q = some v := by
  have qPositive := pos_of_near positive near
  simp only [round, qPositive.ne', ↓reduceIte, abs_of_pos qPositive, qPositive.not_gt,
    roundPos_near positive exact near, (exists_multiple positive exact).1]

end Near

/-- Rounding a positive number gives zero or a positive binary64 number. -/
theorem roundPos_multiple {q : ℚ} (nonzero : 0 < roundPos q) :
    ∃ m : ℤ, roundPos q = m * 2 ^ lastPlace (roundPos q) := by
  have unit : (0 : ℚ) < 2 ^ lastPlace q := by positivity
  have error := abs_le.mp (roundPos_error q)
  have multiple : roundPos q = nearestEven (q / 2 ^ lastPlace q) * 2 ^ lastPlace q := rfl
  by_cases finer : lastPlace (roundPos q) ≤ lastPlace q
  · obtain ⟨k, power⟩ := zpow_multiple finer
    refine ⟨nearestEven (q / 2 ^ lastPlace q) * k, ?_⟩
    rw [Int.cast_mul, mul_assoc, ← power]
    exact multiple
  · -- The rounding carried into the next binade, whose first number it is.
    have coarser := not_le.mp finer
    have aboveQ : q < (2 : ℚ) ^ (Int.log 2 q + 1) := lt_pow_log_succ q
    have belowV : (2 : ℚ) ^ Int.log 2 (roundPos q) ≤ roundPos q := pow_log_le nonzero
    have logs : Int.log 2 q + 1 ≤ Int.log 2 (roundPos q) ∧
        lastPlace q + 53 ≤ Int.log 2 (roundPos q) := by
      unfold lastPlace at coarser ⊢
      omega
    have crossed : (2 : ℚ) ^ (Int.log 2 q + 1) ≤ roundPos q :=
      (zpow_le_zpow_right₀ one_le_two logs.1).trans belowV
    have placed : lastPlace q ≤ Int.log 2 q + 1 := by
      by_contra tiny
      have qTiny : q < (2 : ℚ) ^ lastPlace q :=
        aboveQ.trans_le (zpow_le_zpow_right₀ one_le_two (by omega))
      have large : (2 : ℚ) ^ (lastPlace q + 1) ≤ roundPos q :=
        (zpow_le_zpow_right₀ one_le_two (by omega)).trans belowV
      rw [zpow_add_one₀ two_ne_zero] at large
      linarith [error.2]
    obtain ⟨k, power⟩ := zpow_multiple placed
    have equal : nearestEven (q / 2 ^ lastPlace q) = k := by
      apply multiple_eq unit
      rw [← multiple, ← power, abs_of_nonneg (by linarith)]
      linarith [error.2]
    have first : roundPos q = 2 ^ (Int.log 2 q + 1) := by rw [multiple, equal, power]
    have log : Int.log 2 (roundPos q) = Int.log 2 q + 1 := by
      have power : Int.log 2 ((2 : ℕ) ^ (Int.log 2 q + 1) : ℚ) = Int.log 2 q + 1 :=
        Int.log_zpow (by norm_num) _
      rw [first]
      exact power
    have place : lastPlace (roundPos q) ≤ Int.log 2 q + 1 := by
      unfold lastPlace at coarser logs ⊢
      omega
    obtain ⟨j, power'⟩ := zpow_multiple place
    exact ⟨j, first.trans power'⟩

theorem round_of_roundPos {v : ℚ} {m : ℤ} (positive : 0 < v) (bounded : v < 2 ^ 1024)
    (multiple : v = m * 2 ^ lastPlace v) : Representable v := by
  have unit : (0 : ℚ) < 2 ^ lastPlace v := by positivity
  have exact : roundPos v = v := roundPos_eq multiple (by rw [sub_self, abs_zero]; positivity)
  simp only [Representable, round, positive.ne', ↓reduceIte, abs_of_pos positive, exact, bounded,
    positive.not_gt]

theorem representable_zero : Representable 0 := rfl

/-- Rounding treats the two signs alike. -/
theorem round_neg (q : ℚ) : round (-q) = (round q).map fun v => -v := by
  rcases lt_trichotomy q 0 with negative | rfl | positive
  · have opposite : 0 < -q := by linarith
    simp only [round, negative.ne, neg_eq_zero, ↓reduceIte, abs_neg, negative, opposite.not_gt]
    split <;> simp
  · rfl
  · have opposite : -q < 0 := by linarith
    simp only [round, positive.ne', neg_eq_zero, ↓reduceIte, abs_neg, opposite, positive.not_gt]
    split <;> rfl

theorem representable_neg {q : ℚ} (exact : Representable q) : Representable (-q) := by
  rw [Representable, round_neg, exact]
  rfl

theorem roundPos_nonneg {q : ℚ} (positive : 0 < q) : 0 ≤ roundPos q := by
  have unit : (0 : ℚ) < 2 ^ lastPlace q := by positivity
  have scaled : 0 < q / 2 ^ lastPlace q := by positivity
  have error := abs_le.mp (nearestEven_error (q / 2 ^ lastPlace q))
  have above : (-1 : ℚ) < nearestEven (q / 2 ^ lastPlace q) := by linarith [error.1]
  have nonneg : 0 ≤ nearestEven (q / 2 ^ lastPlace q) := by
    have : -1 < nearestEven (q / 2 ^ lastPlace q) := by exact_mod_cast above
    omega
  exact mul_nonneg (by exact_mod_cast nonneg) unit.le

/-- Whatever rounding yields is a binary64 number. -/
theorem representable_of_round {q v : ℚ} (rounded : round q = some v) : Representable v := by
  have positiveCase : ∀ q v : ℚ, 0 < q → round q = some v → Representable v := by
    intro q v positive rounded
    simp only [round, positive.ne', ↓reduceIte, abs_of_pos positive, positive.not_gt] at rounded
    split at rounded
    next fits =>
      cases rounded
      rcases (roundPos_nonneg positive).eq_or_lt with zero | nonzero
      · rw [← zero]; exact representable_zero
      · obtain ⟨m, multiple⟩ := roundPos_multiple nonzero
        exact round_of_roundPos nonzero fits multiple
    next => cases rounded
  rcases lt_trichotomy q 0 with negative | rfl | positive
  · have opposite : round (-q) = some (-v) := by rw [round_neg, rounded, Option.map_some]
    have := representable_neg (positiveCase (-q) (-v) (by linarith) opposite)
    rwa [neg_neg] at this
  · cases rounded; exact representable_zero
  · exact positiveCase q v positive rounded

/-! ## Order -/

theorem nearestEven_bounds (x : ℚ) : ⌊x⌋ ≤ nearestEven x ∧ nearestEven x ≤ ⌊x⌋ + 1 := by
  rw [nearestEven]
  split
  · omega
  · split
    · omega
    · split <;> omega

theorem nearestEven_mono {x y : ℚ} (le : x ≤ y) : nearestEven x ≤ nearestEven y := by
  have floors := Int.floor_le_floor le
  rcases floors.eq_or_lt with same | lower
  · -- In one unit interval the larger number is farther from the lower end.
    have fractions : x - ⌊x⌋ ≤ y - ⌊y⌋ := by rw [same]; linarith
    by_cases near : x - ⌊x⌋ < 1 / 2
    · rw [nearestEven, if_pos near, same]
      exact (nearestEven_bounds y).1
    · by_cases far : 1 / 2 < y - ⌊y⌋
      · have upper : nearestEven y = ⌊y⌋ + 1 := by
          rw [nearestEven, if_neg (by linarith), if_pos far]
        rw [upper, ← same]
        exact (nearestEven_bounds x).2
      · have equal : x = y := by
          rw [same] at near
          linarith
        rw [equal]
  · linarith [(nearestEven_bounds x).2, (nearestEven_bounds y).1]

theorem roundPos_le_zpow {q : ℚ} {k : ℤ} (le : q ≤ 2 ^ k) (place : lastPlace q ≤ k) :
    roundPos q ≤ 2 ^ k := by
  have unit : (0 : ℚ) < 2 ^ lastPlace q := by positivity
  obtain ⟨m, power⟩ := zpow_multiple place
  have scaled : q / 2 ^ lastPlace q ≤ m := by
    rw [div_le_iff₀ unit, ← power]
    exact le
  have whole : nearestEven (q / 2 ^ lastPlace q) ≤ m := by
    have exact : nearestEven (m : ℚ) = m := nearestEven_eq (by simp)
    exact (nearestEven_mono scaled).trans_eq exact
  rw [power, roundPos]
  exact mul_le_mul_of_nonneg_right (by exact_mod_cast whole) unit.le

theorem zpow_le_roundPos {q : ℚ} {k : ℤ} (le : 2 ^ k ≤ q) (place : lastPlace q ≤ k) :
    2 ^ k ≤ roundPos q := by
  have unit : (0 : ℚ) < 2 ^ lastPlace q := by positivity
  obtain ⟨m, power⟩ := zpow_multiple place
  have scaled : m ≤ q / 2 ^ lastPlace q := by
    rw [le_div_iff₀ unit, ← power]
    exact le
  have whole : m ≤ nearestEven (q / 2 ^ lastPlace q) := by
    have exact : nearestEven (m : ℚ) = m := nearestEven_eq (by simp)
    exact exact.symm.trans_le (nearestEven_mono scaled)
  rw [power, roundPos]
  exact mul_le_mul_of_nonneg_right (by exact_mod_cast whole) unit.le

theorem roundPos_mono {a b : ℚ} (positive : 0 < a) (le : a ≤ b) : roundPos a ≤ roundPos b := by
  have logs : Int.log 2 a ≤ Int.log 2 b := Int.log_mono_right positive le
  have places : lastPlace a ≤ lastPlace b := by
    unfold lastPlace
    omega
  rcases places.eq_or_lt with same | coarser
  · have unit : (0 : ℚ) < 2 ^ lastPlace b := by positivity
    rw [roundPos, roundPos, same]
    refine mul_le_mul_of_nonneg_right ?_ unit.le
    exact_mod_cast nearestEven_mono (div_le_div_of_nonneg_right le unit.le)
  · -- A power of two lies between them, which rounding does not cross.
    have between : Int.log 2 a + 1 ≤ Int.log 2 b ∧ lastPlace b ≤ Int.log 2 b := by
      unfold lastPlace at coarser ⊢
      omega
    have above : a < (2 : ℚ) ^ (Int.log 2 a + 1) := lt_pow_log_succ a
    have below : (2 : ℚ) ^ Int.log 2 b ≤ b := pow_log_le (positive.trans_le le)
    calc roundPos a ≤ 2 ^ Int.log 2 b :=
          roundPos_le_zpow (above.le.trans (zpow_le_zpow_right₀ one_le_two between.1))
            (places.trans between.2)
      _ ≤ roundPos b := zpow_le_roundPos below between.2

theorem round_of_pos {q : ℚ} (positive : 0 < q) :
    round q = if roundPos q < 2 ^ 1024 then some (roundPos q) else none := by
  simp only [round, positive.ne', ↓reduceIte, abs_of_pos positive, positive.not_gt]

theorem round_eq_some_iff {q v : ℚ} (positive : 0 < q) :
    round q = some v ↔ roundPos q < 2 ^ 1024 ∧ roundPos q = v := by
  rw [round_of_pos positive]
  split
  next fits => simp only [fits, true_and, Option.some_inj]
  next large => simp only [large, false_and, reduceCtorEq]

/-- What lies below a number that rounds to a finite one does so too, and not above it. -/
theorem round_mono {a b w : ℚ} (nonneg : 0 ≤ a) (le : a ≤ b) (rounded : round b = some w) :
    ∃ v ≤ w, round a = some v := by
  rcases nonneg.eq_or_lt with rfl | positive
  · refine ⟨0, ?_, rfl⟩
    rcases le.eq_or_lt with rfl | above
    · exact (Option.some.inj rounded).le
    · rw [← ((round_eq_some_iff above).mp rounded).2]
      exact roundPos_nonneg above
  · obtain ⟨fits, rfl⟩ := (round_eq_some_iff (positive.trans_le le)).mp rounded
    have below := roundPos_mono positive le
    exact ⟨_, below, (round_eq_some_iff positive).mpr ⟨below.trans_lt fits, rfl⟩⟩

/-- Between a number and its rounding every number is rounded alike. -/
theorem round_between {a b v : ℚ} (nonneg : 0 ≤ a) (rounded : round a = some v) (le : a ≤ b)
    (le' : b ≤ v) : round b = some v := by
  obtain ⟨w, below, rounded'⟩ := round_mono (nonneg.trans le) le' (representable_of_round rounded)
  obtain ⟨u, above, again⟩ := round_mono nonneg le rounded'
  have same : u = v := Option.some.inj (again.symm.trans rounded)
  rw [rounded', le_antisymm below (same ▸ above)]

theorem round_nonneg {q v : ℚ} (nonneg : 0 ≤ q) (rounded : round q = some v) : 0 ≤ v := by
  obtain ⟨w, le, zero⟩ := round_mono le_rfl nonneg rounded
  rwa [← Option.some.inj zero] at le

/-- Between a number's rounding and the number every number is rounded alike. -/
theorem round_between_above {a b v : ℚ} (rounded : round a = some v) (nonneg : 0 ≤ v) (le : v ≤ b)
    (le' : b ≤ a) : round b = some v := by
  obtain ⟨w, below, rounded'⟩ := round_mono (nonneg.trans le) le' rounded
  obtain ⟨u, above, again⟩ := round_mono nonneg le rounded'
  have same : u = v := Option.some.inj (again.symm.trans (representable_of_round rounded))
  rw [rounded', le_antisymm below (same ▸ above)]

/-- In the normal range rounding moves a number by less than a quarter of it. -/
theorem roundPos_between {q : ℚ} (normal : 2 ^ (-1022 : ℤ) ≤ q) :
    3 / 4 * q ≤ roundPos q ∧ roundPos q ≤ 5 / 4 * q := by
  have positive : 0 < q := lt_of_lt_of_le (by positivity) normal
  have unit : (2 : ℚ) ^ (-53 : ℤ) * q ≤ 1 / 4 * q :=
    mul_le_mul_of_nonneg_right (by norm_num) positive.le
  have error := abs_le.mp ((roundPos_relative_error normal).trans unit)
  constructor
  · linarith [error.1]
  · linarith [error.2]

theorem round_pos {q v : ℚ} (normal : 2 ^ (-1022 : ℤ) ≤ q) (rounded : round q = some v) :
    0 < v := by
  have positive : 0 < q := lt_of_lt_of_le (by positivity) normal
  obtain ⟨-, rfl⟩ := (round_eq_some_iff positive).mp rounded
  linarith [(roundPos_between normal).1]

/-- A number and a tenth of it are rounded apart. -/
theorem round_ne_of_le_tenth {a b v : ℚ} (nonneg : 0 ≤ a) (le : a ≤ b / 10) (normal : 1 ≤ b)
    (rounded : round b = some v) : round a ≠ some v := by
  have tiny : (2 : ℚ) ^ (-1022 : ℤ) ≤ 1 / 16 :=
    (zpow_le_zpow_right₀ one_le_two (by decide : (-1022 : ℤ) ≤ -4)).trans (by norm_num)
  have positive : 0 < b := by linarith
  have tenth : 0 < b / 10 := by positivity
  obtain ⟨fits, rfl⟩ := (round_eq_some_iff positive).mp rounded
  have apart : roundPos (b / 10) < roundPos b := by
    calc roundPos (b / 10) ≤ 5 / 4 * (b / 10) :=
          (roundPos_between (tiny.trans (by linarith))).2
      _ < 3 / 4 * b := by linarith
      _ ≤ roundPos b := (roundPos_between (tiny.trans (by linarith))).1
  obtain ⟨u, below, rounded'⟩ := round_mono nonneg le
    ((round_eq_some_iff tenth).mpr ⟨apart.trans fits, rfl⟩)
  rw [rounded']
  exact fun same => (below.trans_lt apart).ne (Option.some.inj same)

/-! ## Overflow -/

/-- What reaches this bound, half a last place above the largest finite number, rounds to an
infinity. -/
def overflow : ℚ := 2 ^ 1024 - 2 ^ 970

/-- The largest finite number. -/
def largest : ℚ := 2 ^ 1024 - 2 ^ 971

theorem log_eq {q : ℚ} {k : ℕ} (low : 2 ^ k ≤ q) (high : q < 2 ^ (k + 1)) : Int.log 2 q = k := by
  have positive : 0 < q := lt_of_lt_of_le (by positivity) low
  have above : k ≤ Int.log 2 q :=
    (Int.zpow_le_iff_le_log (by norm_num) positive).mp (by exact_mod_cast low)
  have below : Int.log 2 q < k + 1 :=
    (Int.lt_zpow_iff_log_lt (by norm_num) positive).mp (by exact_mod_cast high)
  omega

theorem largest_eq : largest = (2 ^ 53 - 1) * 2 ^ 971 := by
  rw [largest, sub_mul, ← pow_add, one_mul]

theorem overflow_eq : overflow = largest + 2 ^ 971 / 2 := by
  have half : (2 : ℚ) ^ 971 / 2 = 2 ^ 970 := by rw [pow_succ, mul_div_cancel_right₀ _ two_ne_zero]
  have twice : (2 : ℚ) ^ 971 = 2 ^ 970 + 2 ^ 970 := by rw [pow_succ, mul_two]
  rw [half, overflow, largest, twice, ← sub_sub, sub_add_cancel]

theorem le_largest : 2 ^ 1023 ≤ largest := by
  rw [largest_eq, show 1023 = 52 + 971 from rfl, pow_add]
  exact mul_le_mul_of_nonneg_right (by norm_num) (by positivity)

theorem largest_lt_overflow : largest < overflow := by
  rw [overflow_eq]
  exact lt_add_of_pos_right _ (by positivity)

theorem overflow_lt : overflow < 2 ^ 1024 := sub_lt_self _ (by positivity)

theorem overflow_pos : 0 < overflow :=
  lt_of_lt_of_le (by positivity) (le_largest.trans largest_lt_overflow.le)

/-- In the highest binade the last place is worth `2 ^ 971`. -/
theorem lastPlace_eq {q : ℚ} (low : 2 ^ 1023 ≤ q) (high : q < 2 ^ 1024) :
    lastPlace q = (971 : ℕ) := by
  rw [lastPlace, log_eq low high]
  rfl

/-- The bound lies halfway between the largest number and the next, which is the even one. -/
theorem roundPos_overflow : roundPos overflow = 2 ^ 1024 := by
  have place := lastPlace_eq (le_largest.trans largest_lt_overflow.le) overflow_lt
  have scaled : overflow / 2 ^ 971 = 2 ^ 53 - 1 / 2 := by
    have unit : (2 : ℚ) ^ 971 ≠ 0 := by positivity
    rw [overflow_eq, largest_eq, add_div, mul_div_cancel_right₀ _ unit, div_right_comm,
      div_self unit]
    norm_num
  have tie : nearestEven (2 ^ 53 - 1 / 2) = 2 ^ 53 := by
    have floor : ⌊(2 ^ 53 - 1 / 2 : ℚ)⌋ = 2 ^ 53 - 1 := by norm_num
    rw [nearestEven, floor]
    norm_num
  rw [roundPos, place, zpow_natCast, scaled, tie, show 1024 = 53 + 971 from rfl, pow_add,
    Int.cast_pow, Int.cast_ofNat]

/-- Less than half a last place above the largest number, that one is the nearest. -/
theorem roundPos_eq_largest {q : ℚ} (low : largest ≤ q) (high : q < overflow) :
    roundPos q = largest := by
  have place := lastPlace_eq (le_largest.trans low) (high.trans overflow_lt)
  refine @roundPos_eq q largest (2 ^ 53 - 1) ?_ ?_
  · rw [place, zpow_natCast, largest_eq, Int.cast_sub, Int.cast_pow, Int.cast_ofNat, Int.cast_one]
  · rw [place, zpow_natCast, abs_of_nonneg (sub_nonneg.mpr low), sub_lt_iff_lt_add', ← overflow_eq]
    exact high

theorem roundPos_lt_iff {q : ℚ} (positive : 0 < q) : roundPos q < 2 ^ 1024 ↔ q < overflow := by
  constructor
  · intro fits
    by_contra reaches
    have above := roundPos_mono overflow_pos (not_lt.mp reaches)
    rw [roundPos_overflow] at above
    exact above.not_gt fits
  · intro below
    have fits : largest < 2 ^ 1024 := largest_lt_overflow.trans overflow_lt
    rcases le_total q largest with small | beyond
    · have le := roundPos_mono positive small
      rw [roundPos_eq_largest le_rfl largest_lt_overflow] at le
      exact le.trans_lt fits
    · rw [roundPos_eq_largest beyond below]
      exact fits

theorem round_eq_none_iff {q : ℚ} : round q = none ↔ overflow ≤ |q| := by
  by_cases zero : q = 0
  · subst zero
    refine iff_of_false (Option.some_ne_none _) ?_
    rw [abs_zero]
    exact overflow_pos.not_ge
  · simp only [round, zero, ↓reduceIte]
    rw [← not_lt, ← roundPos_lt_iff (abs_pos.mpr zero)]
    split
    next fits => exact iff_of_false (Option.some_ne_none _) (not_not.mpr fits)
    next large => exact iff_of_true rfl large

/-! ## Whole numbers -/

/-- From `2 ^ 53` on all binary64 numbers are whole. -/
theorem whole_of_le {v : ℚ} (exact : Representable v) (large : 2 ^ 53 ≤ v) : v = ⌊v⌋ := by
  have positive : 0 < v := lt_of_lt_of_le (by positivity) large
  obtain ⟨-, m, multiple⟩ := exists_multiple positive exact
  have log : 53 ≤ Int.log 2 v :=
    (Int.zpow_le_iff_le_log (by norm_num) positive).mp (by exact_mod_cast large)
  have place : 0 ≤ lastPlace v := by
    unfold lastPlace
    omega
  obtain ⟨k, power⟩ := zpow_multiple place
  have whole : v = ((m * k : ℤ) : ℚ) := by
    rw [multiple, power, zpow_zero, mul_one, Int.cast_mul]
  rw [whole, Int.floor_intCast]

/-- What is at least `2 ^ 53` is rounded to a whole number. -/
theorem whole_of_round_large {q v : ℚ} (large : 2 ^ 53 ≤ q) (rounded : round q = some v) :
    v = ⌊v⌋ := by
  have exact : round (2 ^ 53) = some (2 ^ 53) := by decide +kernel
  obtain ⟨w, le, power⟩ := round_mono (by positivity) large rounded
  obtain rfl := Option.some.inj (exact.symm.trans power)
  exact whole_of_le (representable_of_round rounded) le

theorem representable_natCast {n : ℕ} (small : n < 2 ^ 53) : Representable n := by
  rcases Nat.eq_zero_or_pos n with rfl | some
  · exact representable_zero
  have positive : (0 : ℚ) < n := by exact_mod_cast some
  have bounded : (n : ℚ) < 2 ^ 53 := by exact_mod_cast small
  have log : Int.log 2 (n : ℚ) < 53 :=
    (Int.lt_zpow_iff_log_lt (by norm_num) positive).mp (by exact_mod_cast bounded)
  have place : lastPlace n ≤ 0 := by
    unfold lastPlace
    omega
  obtain ⟨k, power⟩ := zpow_multiple place
  rw [zpow_zero] at power
  refine @round_of_roundPos n (n * k) positive
    (bounded.trans (pow_lt_pow_right₀ one_lt_two (by decide))) ?_
  rw [Int.cast_mul, Int.cast_natCast, mul_assoc, ← power, mul_one]

/-- A whole number is rounded to a whole number. -/
theorem whole_of_round_natCast {n : ℕ} {v : ℚ} (rounded : round n = some v) : v = ⌊v⌋ := by
  by_cases small : n < 2 ^ 53
  · rw [representable_natCast small] at rounded
    obtain rfl := Option.some.inj rounded
    rw [Int.floor_natCast]
    rfl
  · exact whole_of_round_large (by exact_mod_cast not_lt.mp small) rounded

end Binary64
