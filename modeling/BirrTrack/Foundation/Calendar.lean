import BirrTrack.Foundation.Decimal
import Mathlib.Data.Int.ModEq
import Mathlib.Tactic.Ring

/-! # The proleptic Gregorian calendar

Days are counted from 1 January 1970, as integers. `Calendar.dayOf` and
`Calendar.dateOf` translate between a day's number and its year, month (counted from
zero) and day of the month, and are inverse to each other. Dates and times of day are
written as in ISO 8601.
-/

namespace Calendar

/-- Locate an offset in consecutive blocks: the block it falls in and the offset
within that block. -/
def locate : List ℕ → ℕ → ℕ × ℕ
  | [], offset => (0, offset)
  | length :: lengths, offset =>
      if offset < length then (0, offset)
      else
        let (block, within) := locate lengths (offset - length)
        (block + 1, within)

/-- An offset within all blocks together lies in the block that is located, behind the blocks before
it. -/
theorem locate_spec {lengths : List ℕ} {offset : ℕ} (inside : offset < lengths.sum) :
    ∃ length, lengths[(locate lengths offset).1]? = some length ∧
      (locate lengths offset).2 < length ∧
      (lengths.take (locate lengths offset).1).sum + (locate lengths offset).2 = offset := by
  induction lengths generalizing offset with
  | nil => exact absurd inside (Nat.not_lt_zero offset)
  | cons length lengths ih =>
      by_cases first : offset < length
      · refine ⟨length, ?_, ?_, ?_⟩ <;> simp [locate, first]
      · rw [List.sum_cons] at inside
        obtain ⟨found, block, within, total⟩ :=
          ih (by omega : offset - length < lengths.sum)
        refine ⟨found, ?_, ?_, ?_⟩
        · simpa only [locate, first, ↓reduceIte, List.getElem?_cons_succ] using block
        · simpa only [locate, first, ↓reduceIte] using within
        · simp only [locate, first, ↓reduceIte, List.take_succ_cons, List.sum_cons]
          omega

/-- The place of an offset is the only one: block and offset within it are read back. -/
theorem locate_eq {lengths : List ℕ} {block within length : ℕ}
    (here : lengths[block]? = some length) (inside : within < length) :
    locate lengths ((lengths.take block).sum + within) = (block, within) := by
  induction lengths generalizing block with
  | nil => cases here
  | cons first lengths ih =>
      cases block with
      | zero =>
          cases here
          simp [locate, inside]
      | succ block =>
          have later := @ih block here
          have beyond : ¬ first + (lengths.take block).sum + within < first := by omega
          have rest : first + (lengths.take block).sum + within - first =
              (lengths.take block).sum + within := by omega
          simp only [locate, List.take_succ_cons, List.sum_cons, beyond, ↓reduceIte, rest, later]

/-- The leap years of the Gregorian rule. -/
def leap (year : ℤ) : Bool := year % 4 = 0 ∧ (year % 100 ≠ 0 ∨ year % 400 = 0)

/-- The number of the first day of a year. -/
def yearStart (year : ℤ) : ℤ :=
  365 * (year - 1970) + (year - 1969) / 4 - (year - 1901) / 100 + (year - 1601) / 400

def yearLength (year : ℤ) : ℕ := if leap year then 366 else 365

/-- A year starts as many days after the one before it as that year is long. -/
theorem yearStart_succ (year : ℤ) : yearStart (year + 1) = yearStart year + yearLength year := by
  by_cases isLeap : leap year = true
  · simp only [yearLength, isLeap, ↓reduceIte]
    simp only [leap, decide_eq_true_eq] at isLeap
    unfold yearStart
    omega
  · simp only [yearLength, isLeap, Bool.false_eq_true, ↓reduceIte]
    simp only [leap, decide_eq_true_eq] at isLeap
    unfold yearStart
    omega

/-- Later years start later. -/
theorem lt_of_yearStart_lt {year other : ℤ} (earlier : yearStart year < yearStart other) :
    year < other := by
  have increasing : StrictMono yearStart := by
    apply strictMono_int_of_lt_succ
    intro year
    rw [yearStart_succ]
    unfold yearLength
    split <;> omega
  exact increasing.lt_iff_lt.mp earlier

/-- The year of a day: the average length of a year gives it up to one year. -/
def yearOf (day : ℤ) : ℤ :=
  let estimate := 1970 + day * 400 / 146097
  if day < yearStart estimate then estimate - 1
  else if yearStart (estimate + 1) ≤ day then estimate + 1
  else estimate

/-- A day lies in its year. -/
theorem yearOf_bounds (day : ℤ) :
    yearStart (yearOf day) ≤ day ∧ day < yearStart (yearOf day + 1) := by
  have near : yearStart (1970 + day * 400 / 146097 - 1) ≤ day ∧
      day < yearStart (1970 + day * 400 / 146097 + 1 + 1) := by
    unfold yearStart
    omega
  unfold yearOf
  simp only
  split
  next before => exact ⟨near.1, by rwa [sub_add_cancel]⟩
  next notBefore =>
    split
    next after => exact ⟨after, near.2⟩
    next notAfter => exact ⟨not_lt.mp notBefore, not_le.mp notAfter⟩

/-- A day lies in one year only. -/
theorem yearOf_eq {day year : ℤ} (lower : yearStart year ≤ day)
    (upper : day < yearStart (year + 1)) : yearOf day = year := by
  obtain ⟨lower', upper'⟩ := yearOf_bounds day
  have first := lt_of_yearStart_lt (lower.trans_lt upper')
  have second := lt_of_yearStart_lt (lower'.trans_lt upper)
  omega

/-- The lengths of the months of a year. -/
def monthLengths (year : ℤ) : List ℕ :=
  [31, if leap year then 29 else 28, 31, 30, 31, 30, 31, 31, 30, 31, 30, 31]

@[simp] theorem length_monthLengths (year : ℤ) : (monthLengths year).length = 12 := rfl

/-- The months of a year make up its days. -/
theorem sum_monthLengths (year : ℤ) : (monthLengths year).sum = yearLength year := by
  unfold monthLengths yearLength
  split <;> rfl

/-- A date; months are counted from zero and days of the month from one. -/
structure Date where
  year : ℤ
  month : ℕ
  day : ℕ
  deriving DecidableEq

/-- The date names a day of the calendar. -/
def Date.Valid (date : Date) : Prop :=
  0 < date.day ∧ ∃ length, (monthLengths date.year)[date.month]? = some length ∧ date.day ≤ length

instance : DecidablePred Date.Valid := fun date =>
  decidable_of_iff
    (0 < date.day ∧ ((monthLengths date.year)[date.month]?).any (date.day ≤ ·) = true) (by
      simp only [Date.Valid, Option.any_eq_true, decide_eq_true_eq])

/-- The number of the first day of a month. -/
def monthStart (year : ℤ) (month : ℕ) : ℤ :=
  yearStart year + (((monthLengths year).take month).sum : ℕ)

/-- The number of a date's day; days past the end of the month run on into the
next one. -/
def dayOf (date : Date) : ℤ := monthStart date.year date.month + date.day - 1

/-- The date of a day. -/
def dateOf (day : ℤ) : Date :=
  let year := yearOf day
  let (month, within) := locate (monthLengths year) (day - yearStart year).toNat
  ⟨year, month, within + 1⟩

/-- The day within its year lies in some month. -/
theorem locate_dayOfYear (day : ℤ) :
    (day - yearStart (yearOf day)).toNat < (monthLengths (yearOf day)).sum := by
  obtain ⟨lower, upper⟩ := yearOf_bounds day
  rw [yearStart_succ] at upper
  rw [sum_monthLengths]
  omega

/-- Every day has a valid date. -/
theorem dateOf_valid (day : ℤ) : (dateOf day).Valid := by
  obtain ⟨length, here, inside, -⟩ := locate_spec (locate_dayOfYear day)
  exact ⟨Nat.succ_pos _, length, here, inside⟩

/-- Every day is the day of its date. -/
@[simp] theorem dayOf_dateOf (day : ℤ) : dayOf (dateOf day) = day := by
  obtain ⟨length, here, inside, total⟩ := locate_spec (locate_dayOfYear day)
  obtain ⟨lower, -⟩ := yearOf_bounds day
  simp only [dayOf, dateOf, monthStart]
  omega

/-- Every valid date is the date of its day. -/
theorem dateOf_dayOf {date : Date} (valid : date.Valid) : dateOf (dayOf date) = date := by
  obtain ⟨year, month, day⟩ := date
  obtain ⟨positive, length, here, inside⟩ := valid
  simp only at positive here inside
  obtain ⟨within, rfl⟩ : ∃ within, day = within + 1 := ⟨day - 1, by omega⟩
  have located := locate_eq here (Nat.lt_of_succ_le inside)
  have bounded : ((monthLengths year).take month).sum + within < yearLength year := by
    rw [← sum_monthLengths]
    have split := congrArg List.sum ((monthLengths year).take_append_drop month)
    rw [List.sum_append] at split
    have front : length ≤ ((monthLengths year).drop month).sum := by
      rw [List.getElem?_eq_some_iff] at here
      obtain ⟨shorter, here⟩ := here
      rw [List.drop_eq_getElem_cons shorter, List.sum_cons, here]
      exact Nat.le_add_right _ _
    omega
  have offset : dayOf ⟨year, month, within + 1⟩ =
      yearStart year + ((((monthLengths year).take month).sum + within : ℕ) : ℤ) := by
    simp only [dayOf, monthStart]
    push_cast
    ring
  have sameYear : yearOf (dayOf ⟨year, month, within + 1⟩) = year := by
    apply yearOf_eq
    · rw [offset]
      omega
    · rw [offset, yearStart_succ]
      omega
  simp only [dateOf, sameYear]
  rw [offset, add_sub_cancel_left, Int.toNat_natCast, located]

theorem Date.Valid.month_lt {date : Date} (valid : date.Valid) : date.month < 12 := by
  obtain ⟨-, length, here, -⟩ := valid
  have shorter := (List.getElem?_eq_some_iff.mp here).1
  rwa [length_monthLengths] at shorter

theorem Date.Valid.day_le {date : Date} (valid : date.Valid) : date.day ≤ 31 := by
  obtain ⟨-, length, here, within⟩ := valid
  have member := List.mem_of_getElem? here
  have longest : length ≤ 31 := by
    unfold monthLengths at member
    split at member <;> simp only [List.mem_cons, List.not_mem_nil, or_false] at member <;> omega
  exact within.trans longest

/-- A date's day lies in its year. -/
theorem Date.Valid.dayOf_bounds {date : Date} (valid : date.Valid) :
    yearStart date.year ≤ dayOf date ∧ dayOf date < yearStart (date.year + 1) := by
  have bounds := yearOf_bounds (dayOf date)
  have year : yearOf (dayOf date) = date.year := congrArg Date.year (dateOf_dayOf valid)
  rwa [year] at bounds

/-! ## ISO 8601 texts -/

/-- Four digits, or a sign and six digits outside the years 0 to 9999. -/
def yearText (year : ℤ) : List Char :=
  if 0 ≤ year ∧ year ≤ 9999 then Decimal.padded 4 year.natAbs
  else (if year < 0 then '-' else '+') :: Decimal.padded 6 year.natAbs

def dateText (date : Date) : List Char :=
  yearText date.year ++ '-' :: (Decimal.padded 2 (date.month + 1) ++
    '-' :: Decimal.padded 2 date.day)

/-- `HH:MM:SS`, from the seconds since midnight. -/
def clockText (seconds : ℕ) : List Char :=
  Decimal.padded 2 (seconds / 3600) ++ ':' :: (Decimal.padded 2 (seconds / 60 % 60) ++
    ':' :: Decimal.padded 2 (seconds % 60))

end Calendar
