import BirrTrack.Database.Integers
import BirrTrack.Js.Date
import BirrTrack.Js.Number

/-! # Column types

The values that PostgreSQL keeps in the columns of the schema, how a parameter sent by
the application becomes such a value, and the text a value is read back as. A
conversion without a result is a statement that the database rejects.
-/

namespace BirrTrack.Database

open Js

/-- `text`; a character string has no zero byte. -/
@[ext] structure Text where
  value : String
  noZero : Char.ofNat 0 ∉ value.toList
  deriving DecidableEq

def Text.ofString (value : String) : Option Text :=
  if noZero : Char.ofNat 0 ∉ value.toList then some ⟨value, noZero⟩ else none

/-- `varchar(limit)`, which counts characters. -/
@[ext] structure Varchar (limit : ℕ) where
  value : String
  noZero : Char.ofNat 0 ∉ value.toList
  fits : value.length ≤ limit
  deriving DecidableEq

/-- A text that `varchar(limit)` takes: beyond the limit it has nothing but blanks. -/
def FitsVarchar (limit : ℕ) (text : String) : Prop :=
  Char.ofNat 0 ∉ text.toList ∧ ∀ c ∈ text.toList.drop limit, c = ' '

instance (limit : ℕ) (text : String) : Decidable (FitsVarchar limit text) :=
  inferInstanceAs (Decidable (_ ∧ _))

/-- The column's value for a text; blanks beyond the limit are cut off. -/
def Varchar.ofString (limit : ℕ) (value : String) : Option (Varchar limit) :=
  if stored : FitsVarchar limit value then
    some {
      value := String.ofList (value.toList.take limit)
      noZero := by
        rw [String.toList_ofList]
        exact fun member => stored.1 (List.mem_of_mem_take member)
      fits := by
        rw [String.length_ofList]
        exact List.length_take_le _ _ }
  else none

/-- `numeric(14,2)`, in hundredths. -/
@[ext] structure Numeric where
  cents : ℤ
  bounded : |cents| < 10 ^ 14
  deriving DecidableEq

def Numeric.ofCents (cents : ℤ) : Option Numeric :=
  if bounded : |cents| < 10 ^ 14 then some ⟨cents, bounded⟩ else none

/-- The column's value for a decimal text, rounded to two decimals. -/
def Numeric.ofText (text : String) : Option Numeric :=
  (Decimal.literal text.toList).bind fun q => Numeric.ofCents (Decimal.hundredths q)

/-- The text of a sum of amounts, always with two decimals. -/
def centsText (cents : ℤ) : String :=
  String.ofList (if cents < 0 then '-' :: Decimal.fixed2 cents.natAbs
    else Decimal.fixed2 cents.natAbs)

def Numeric.text (n : Numeric) : String := centsText n.cents

/-- `bigint` -/
@[ext] structure Bigint where
  value : ℤ
  bounded : -2 ^ 63 ≤ value ∧ value < 2 ^ 63
  deriving DecidableEq

def Bigint.ofText (text : String) : Option Bigint :=
  (readInteger text.toList).bind fun value =>
    if bounded : -2 ^ 63 ≤ value ∧ value < 2 ^ 63 then some ⟨value, bounded⟩ else none

def Bigint.text (n : Bigint) : String :=
  String.ofList (if n.value < 0 then '-' :: Nat.toDigits 10 n.value.natAbs
    else Nat.toDigits 10 n.value.natAbs)

/-- `timestamptz`; its first day is 24 November of the year 4714 BC. -/
@[ext] structure Timestamptz where
  instant : TimeValue
  notBefore : -210866803200000 ≤ instant.ms
  deriving DecidableEq

def Timestamptz.ofTimeValue (instant : TimeValue) : Option Timestamptz :=
  if notBefore : -210866803200000 ≤ instant.ms then some ⟨instant, notBefore⟩ else none

/-- The instant of the text that the driver sends for a date: local time, and its offset
from UTC without the seconds. -/
def sent (reader : DateReader) (ms : ℤ) : ℤ :=
  ms + reader.zoneOffset ms - (reader.zoneOffset ms).tdiv 60000 * 60000

/-- The column's value for a date; an Invalid Date is no timestamp. -/
def Timestamptz.ofDate (reader : DateReader) (date : Date) : Option Timestamptz :=
  date.bind fun t => (timeClip (sent reader t.ms)).bind Timestamptz.ofTimeValue

/-! ## What a stored value was converted from -/

theorem Text.ofString_eq_some {value : String} {t : Text} (stored : Text.ofString value = some t) :
    t.value = value := by
  unfold Text.ofString at stored
  split at stored
  · cases stored
    rfl
  · cases stored

@[simp] theorem Text.ofString_value (t : Text) : Text.ofString t.value = some t := by
  simp only [Text.ofString, t.noZero, not_false_eq_true, ↓reduceDIte]

/-- A text without zeros that is not longer than the column fits it. -/
theorem FitsVarchar.of_length {limit : ℕ} {text : String} (noZero : Char.ofNat 0 ∉ text.toList)
    (short : text.length ≤ limit) : FitsVarchar limit text := by
  rw [FitsVarchar, List.drop_eq_nil_of_le (String.length_toList ▸ short)]
  exact ⟨noZero, fun _ member => absurd member List.not_mem_nil⟩

section Varchar

variable {limit : ℕ} {value : String} {v : Varchar limit}

/-- A stored text is what is left of it after the cut. -/
theorem Varchar.ofString_eq_some (stored : Varchar.ofString limit value = some v) :
    v.value = String.ofList (value.toList.take limit) := by
  unfold Varchar.ofString at stored
  split at stored
  · cases stored
    rfl
  · cases stored

theorem Varchar.noZero_of_ofString (stored : Varchar.ofString limit value = some v) :
    Char.ofNat 0 ∉ value.toList := by
  unfold Varchar.ofString at stored
  split at stored
  next fits => exact fits.1
  next => cases stored

/-- The column keeps a text as it is exactly when the text is no longer than the column. -/
theorem Varchar.value_eq_iff (stored : Varchar.ofString limit value = some v) :
    v.value = value ↔ value.length ≤ limit := by
  refine ⟨?_, ?_⟩
  · rintro rfl
    exact v.fits
  · intro short
    rw [ofString_eq_some stored, List.take_of_length_le (String.length_toList ▸ short),
      String.ofList_toList]

/-- A text that does not end in a blank is kept as it is. -/
theorem Varchar.value_of_getLast (stored : Varchar.ofString limit value = some v)
    (ends : value.toList.getLast? ≠ some ' ') : v.value = value := by
  rw [value_eq_iff stored]
  unfold Varchar.ofString at stored
  split at stored
  next fits =>
    by_contra long
    have longer : limit < value.toList.length := String.length_toList ▸ not_le.mp long
    obtain ⟨front, c, split⟩ := List.eq_nil_or_concat (value.toList.drop limit) |>.resolve_left
      (List.drop_eq_nil_iff.not.mpr (not_le.mpr longer))
    rw [List.concat_eq_append] at split
    have blank := fits.2 c (by rw [split]; exact List.mem_append_right _ List.mem_cons_self)
    apply ends
    rw [← List.take_append_drop limit value.toList, split, blank, ← List.append_assoc,
      List.getLast?_concat]
  next => cases stored

end Varchar

/-! ## Dates as the driver sends them -/

section Sent

variable {reader : DateReader} {ms : ℤ}

theorem sent_eq_add_tmod (reader : DateReader) (ms : ℤ) :
    sent reader ms = ms + (reader.zoneOffset ms).tmod 60000 := by
  rw [sent, Int.tmod_def]
  ring

/-- Where local time is whole minutes away from UTC, the date itself is sent, and elsewhere another
one. -/
theorem sent_eq_self_iff : sent reader ms = ms ↔ 60000 ∣ reader.zoneOffset ms := by
  rw [sent_eq_add_tmod, add_eq_left]
  exact Int.dvd_iff_tmod_eq_zero.symm

/-- The driver shifts a date by less than a minute. -/
theorem abs_sent_sub_lt (reader : DateReader) (ms : ℤ) : |sent reader ms - ms| < 60000 := by
  rw [sent_eq_add_tmod, add_sub_cancel_left, abs_lt]
  exact ⟨Int.lt_tmod_of_pos _ (by decide), Int.tmod_lt_of_pos _ (by decide)⟩

/-- A date is stored as the instant the driver sends. -/
theorem Timestamptz.ofDate_eq_some {date : Date} {t : Timestamptz} :
    Timestamptz.ofDate reader date = some t ↔
      ∃ given, date = some given ∧ t.instant.ms = sent reader given.ms := by
  rw [ofDate, Option.bind_eq_some_iff]
  refine exists_congr fun given => and_congr_right fun _ => ?_
  refine ⟨?_, ?_⟩
  · intro stored
    obtain ⟨instant, clipped, converted⟩ := Option.bind_eq_some_iff.mp stored
    simp only [ofTimeValue] at converted
    split at converted
    · cases converted
      exact timeClip_eq_some clipped
    · cases converted
  · intro same
    rw [← same, timeClip_ms, Option.bind_some]
    exact dif_pos t.notBefore

end Sent

/-- The text of a natural number is read back as it was written. -/
theorem Bigint.text_of_toString {n : ℕ} {b : Bigint}
    (stored : Bigint.ofText (toString n) = some b) : b.text = toString n := by
  have digits : (toString n).toList = Nat.toDigits 10 n := by
    rw [Nat.toString_eq_repr, Nat.repr, String.toList_ofList]
  rw [ofText, digits, readInteger_toDigits, Option.bind_some] at stored
  split at stored
  · cases stored
    have unsigned : ¬ (n : ℤ) < 0 := by omega
    rw [text, if_neg unsigned, Int.natAbs_natCast, ← digits, String.ofList_toList]
  · cases stored

theorem Numeric.ofCents_eq_some {cents : ℤ} {n : Numeric}
    (stored : Numeric.ofCents cents = some n) : n.cents = cents := by
  unfold Numeric.ofCents at stored
  split at stored
  · cases stored
    rfl
  · cases stored

@[simp] theorem Numeric.ofCents_cents (n : Numeric) : Numeric.ofCents n.cents = some n := by
  simp only [Numeric.ofCents, n.bounded, ↓reduceDIte]

theorem literal_centsText (cents : ℤ) :
    Decimal.literal (centsText cents).toList = some ((cents : ℚ) / 100) := by
  by_cases negative : cents < 0
  · have cast : ((cents.natAbs : ℕ) : ℚ) = -cents := by
      rw [Nat.cast_natAbs, abs_of_neg negative, Int.cast_neg]
    simp only [centsText, negative, ↓reduceIte, String.toList_ofList]
    rw [Decimal.literal_minus (Decimal.fixed2_ne_nil _) (Decimal.literal_fixed2 _)
      (Decimal.isDigit_head_fixed2 _), cast]
    congr 1
    ring
  · have cast : ((cents.natAbs : ℕ) : ℚ) = cents := by
      rw [Nat.cast_natAbs, abs_of_nonneg (not_lt.mp negative)]
    simp only [centsText, negative, ↓reduceIte, String.toList_ofList, Decimal.literal_fixed2, cast]

/-- The text of an amount denotes it. -/
theorem Numeric.literal_text (n : Numeric) :
    Decimal.literal n.text.toList = some ((n.cents : ℚ) / 100) := literal_centsText n.cents

/-- A text denotes one amount only. -/
theorem Numeric.eq_of_literal {text : String} {first second : Numeric}
    (denotes : Decimal.literal text.toList = some ((first.cents : ℚ) / 100))
    (denotes' : Decimal.literal text.toList = some ((second.cents : ℚ) / 100)) :
    first = second := by
  have equal : (first.cents : ℚ) = second.cents := by
    have := Option.some.inj (denotes.symm.trans denotes')
    linarith
  exact Numeric.ext (by exact_mod_cast equal)

theorem Numeric.zero_not_mem_text (n : Numeric) : Char.ofNat 0 ∉ n.text.toList := by
  have digits : Char.ofNat 0 ∉ Decimal.fixed2 n.cents.natAbs := by
    simp only [Decimal.fixed2, List.mem_append, List.mem_cons, not_or]
    refine ⟨fun member => ?_, by decide, fun member => ?_⟩
    · exact absurd (Decimal.isDigit_of_mem_toDigits _ member) (by decide)
    · exact absurd (Decimal.isDigit_of_mem_padded member) (by decide)
  rw [text, centsText, String.toList_ofList]
  split
  · rw [List.mem_cons, not_or]
    exact ⟨by decide, digits⟩
  · exact digits

/-- Amounts far beyond the column's range are rejected. -/
theorem Numeric.ofCents_eq_none {q : ℚ} (large : 10 ^ 21 ≤ |q|) :
    Numeric.ofCents (Decimal.hundredths q) = none := by
  have outside : ¬ |Decimal.hundredths q| < 10 ^ 14 := by
    intro small
    obtain ⟨low, high⟩ := abs_lt.mp small
    rw [Decimal.hundredths, Int.floor_lt] at high
    rw [Decimal.hundredths, ← Int.add_one_le_iff, Int.le_floor] at low
    push_cast at high low
    rcases le_abs.mp large with above | below <;> linarith
  simp only [ofCents, outside, ↓reduceDIte]

/-- What `toFixed(2)` of an amount becomes in the column. -/
theorem Numeric.ofText_toFixed2 {number : Number} (nonneg : 0 ≤ number.val) :
    Numeric.ofText number.toFixed2 = Numeric.ofCents (Decimal.hundredths number.val) := by
  by_cases bounded : number.val < 10 ^ 21
  · rw [ofText, (Number.literal_toFixed2 nonneg bounded).2, Option.bind_some,
      Decimal.hundredths_intCast_div]
  · have large := not_lt.mp bounded
    obtain ⟨q, literal, beyond⟩ := Number.literal_toFixed2_large large
    rw [ofText, literal, Option.bind_some, ofCents_eq_none (beyond.trans (le_abs_self q)),
      ofCents_eq_none (large.trans (le_abs_self _))]

/-- An amount that fits the column is read back as its `toFixed(2)`. -/
theorem Numeric.text_of_toFixed2 {number : Number} (nonneg : 0 ≤ number.val) {n : Numeric}
    (stored : Numeric.ofText number.toFixed2 = some n) :
    n.text = number.toFixed2 ∧ n.cents = Decimal.hundredths number.val := by
  rw [ofText_toFixed2 nonneg] at stored
  have cents := ofCents_eq_some stored
  have small : number.val < 10 ^ 21 := by
    have bounded := (abs_lt.mp n.bounded).2
    rw [cents, Decimal.hundredths, Int.floor_lt] at bounded
    push_cast at bounded
    linarith
  have positive : 0 ≤ n.cents := cents ▸ Decimal.hundredths_nonneg nonneg
  refine ⟨?_, cents⟩
  have same : n.cents.natAbs = n.cents.toNat := by omega
  rw [(Number.literal_toFixed2 nonneg small).1, text, centsText, if_neg positive.not_gt, ← cents,
    same]

/-- The text that an amount is stored from denotes what the column keeps. -/
theorem Numeric.literal_toFixed2 {number : Number} {n : Numeric}
    (stored : Numeric.ofText number.toFixed2 = some n) :
    Decimal.literal number.toFixed2.toList = some ((n.cents : ℚ) / 100) := by
  by_cases nonneg : 0 ≤ number.val
  · rw [← (text_of_toFixed2 nonneg stored).1, literal_text]
  have negative : number.val < 0 := not_le.mp nonneg
  let opposite : Number := ⟨-number.val, Binary64.representable_neg number.representable⟩
  have oppositeNonneg : 0 ≤ opposite.val := neg_nonneg.mpr negative.le
  have text : number.toFixed2.toList = '-' :: opposite.toFixed2.toList := by
    simp only [Number.toFixed2, opposite, abs_neg, negative, ↓reduceIte, Left.neg_neg_iff,
      negative.not_gt, String.toList_ofList]
  obtain ⟨nonempty, unsigned⟩ := Number.toFixed2_head oppositeNonneg
  by_cases bounded : opposite.val < 10 ^ 21
  · have literal : Decimal.literal number.toFixed2.toList =
        some (((-Decimal.hundredths opposite.val : ℤ) : ℚ) / 100) := by
      rw [text, Decimal.literal_minus nonempty
        (Number.literal_toFixed2 oppositeNonneg bounded).2 unsigned]
      push_cast
      rw [neg_div]
    rw [ofText, literal, Option.bind_some, Decimal.hundredths_intCast_div] at stored
    rw [literal, ofCents_eq_some stored]
  · obtain ⟨q, literal, large⟩ := Number.literal_toFixed2_large (not_lt.mp bounded)
    have beyond : 10 ^ 21 ≤ |(-q)| := by
      rw [abs_neg]
      exact large.trans (le_abs_self q)
    rw [ofText, text, Decimal.literal_minus nonempty literal unsigned, Option.bind_some,
      ofCents_eq_none beyond] at stored
    cases stored

/-- The text of an amount with at most two decimals denotes what the column keeps. -/
theorem Numeric.literal_toString {number : Number} (nonneg : 0 ≤ number.val)
    (places : number.TwoDecimals) {n : Numeric} (stored : Numeric.ofText number.toFixed2 = some n) :
    Decimal.literal number.toString.toList = some ((n.cents : ℚ) / 100) := by
  have cents := (text_of_toFixed2 nonneg stored).2
  have small : number.val < 10 ^ 13 := by
    have bounded := (abs_lt.mp n.bounded).2
    rw [cents, Decimal.hundredths, Int.floor_lt] at bounded
    push_cast at bounded
    linarith
  obtain ⟨count, text, rounded⟩ := Number.literal_toString_of_twoDecimals nonneg small places
  rw [text, cents, rounded, Int.cast_natCast]

/-! ## Stored values as parameters -/

/-- A stored text is stored again as it is. -/
theorem Varchar.ofString_value {limit : ℕ} (v : Varchar limit) :
    Varchar.ofString limit v.value = some v := by
  have fits := FitsVarchar.of_length v.noZero v.fits
  obtain ⟨stored, same⟩ : ∃ stored, Varchar.ofString limit v.value = some stored :=
    ⟨_, dif_pos fits⟩
  rw [same]
  exact congrArg some (Varchar.ext ((value_eq_iff same).mpr v.fits))

theorem Numeric.ofText_text (n : Numeric) : Numeric.ofText n.text = some n := by
  rw [ofText, literal_text, Option.bind_some, Decimal.hundredths_intCast_div, ofCents_cents]

/-- A stored instant is stored again as itself where local time is whole minutes away from UTC. -/
theorem Timestamptz.ofDate_instant {reader : DateReader} {t : Timestamptz}
    (whole : 60000 ∣ reader.zoneOffset t.instant.ms) :
    Timestamptz.ofDate reader (some t.instant) = some t :=
  ofDate_eq_some.mpr ⟨t.instant, rfl, (sent_eq_self_iff.mpr whole).symm⟩

end BirrTrack.Database
