import BirrTrack.Js.Date
import Mathlib.Data.List.TakeWhile

/-! # The date-time string format and ISO 8601

On its own format `new Date` reads the moment that the text denotes by ISO 8601, as long as the
date is one of the calendar: `denotes_iff`. A day that its month does not have denotes nothing;
`new Date` counts it on into the next month.
-/

namespace BirrTrack.Js

open Readers

/-- The date of a text in the format is one of the calendar. -/
def onCalendar (text : List Char) : Bool :=
  let date : Reader Bool := do
    let year ← isoYear
    let (month, day) ← isoMonthDay
    return decide (Calendar.Date.Valid ⟨year, month - 1, day⟩)
  (date text).any Prod.fst

/-- A wall-clock time in a zone is at a millisecond. -/
def Zone.IsAt (zoneOffset : ℤ → ℤ) (wall ms : ℤ) : Zone → Prop
  | utc => ms = wall
  | server => ms + zoneOffset ms = wall
  | offset minutes => ms = wall - minutes * 60000

section Readings

variable {text rest : List Char}

/-! ## Years -/

/-- A year of the format is a year of ISO 8601. -/
theorem year_of_isoYear {year : ℤ} (read : isoYear text = some (year, rest)) :
    Iso8601.year 6 text = some (year, rest) := by
  simp only [isoYear, reader_bind_eq_some] at read
  obtain ⟨plus, middle, skipped, read⟩ := read
  rw [Iso8601.year, reader_bind, skipped, Option.bind_some]
  cases plus with
  | true => exact read
  | false =>
      simp only [Bool.false_eq_true, ↓reduceIte, reader_bind_eq_some] at read ⊢
      obtain ⟨minus, middle', skipped', read⟩ := read
      refine ⟨minus, middle', skipped', ?_⟩
      cases minus with
      | true =>
          simp only [↓reduceIte, reader_bind_eq_some, reader_guard_eq_some,
            reader_pure_eq_some] at read ⊢
          obtain ⟨number, later, found, _, _, ⟨-, rfl⟩, rfl, rfl⟩ := read
          exact ⟨number, _, found, rfl, rfl⟩
      | false => exact read

/-! ## Days -/

/-- The first of January, if a year is all there is. -/
theorem dayOfYear_of_not_separated {year : ℤ} (noMonth : text.head? ≠ some '-')
    (ends : ∀ c ∈ text.head?, c = 'T') :
    Iso8601.dayOfYear year text = some (Calendar.yearStart year, text) := by
  have noWeek : text.head? ≠ some 'W' := fun week => absurd (ends 'W' week) (by decide)
  have stops : ∀ c ∈ text.head?, c.isDigit = false := fun c head => by rw [ends c head]; rfl
  have noDigits : digits ([] ++ text) = some ([], text) :=
    digits_append (fun c member => absurd member List.not_mem_nil) stops
  rw [List.nil_append] at noDigits
  simp only [Iso8601.dayOfYear, Iso8601.plainDay, reader_bind, skip_of_head noMonth,
    skip_of_head noWeek, noDigits, Option.bind_some, Bool.false_eq_true, ↓reduceIte,
    List.length_nil]
  rfl

/-- A month of two digits, and the day behind it. -/
theorem dayOfYear_of_month {year : ℤ} {run : List Char} {day : ℕ} (two : run.length = 2)
    (all : ∀ c ∈ run, c.isDigit = true) (positive : 1 ≤ Decimal.value run)
    (stops : ∀ c ∈ text.head?, c.isDigit = false)
    (read : (do if ← skip '-' then number 2 else pure 1 : Reader ℕ) text = some (day, rest)) :
    Iso8601.dayOfYear year ('-' :: (run ++ text)) =
      if Calendar.Date.Valid ⟨year, Decimal.value run - 1, day⟩ then
        some (Calendar.dayOf ⟨year, Decimal.value run - 1, day⟩, rest)
      else none := by
  have noWeek : (run ++ text).head? ≠ some 'W' := by
    obtain ⟨c, later, rfl⟩ := List.exists_cons_of_length_pos (by omega : 0 < run.length)
    intro week
    cases week
    exact absurd (all 'W' List.mem_cons_self) (by decide)
  have notThree : run.length ≠ 3 := by omega
  have named : (liftM (Iso8601.calendarDay year (Decimal.value run) day) : Reader ℤ) rest =
      if Calendar.Date.Valid ⟨year, Decimal.value run - 1, day⟩ then
        some (Calendar.dayOf ⟨year, Decimal.value run - 1, day⟩, rest)
      else none := by
    by_cases valid : Calendar.Date.Valid ⟨year, Decimal.value run - 1, day⟩
    · rw [Iso8601.calendarDay, if_pos ⟨positive, valid⟩, if_pos valid]
      rfl
    · rw [Iso8601.calendarDay, if_neg fun both => valid both.2, if_neg valid]
      rfl
  obtain ⟨came, middle, skipped, read⟩ := reader_bind_eq_some.mp read
  simp only [Iso8601.dayOfYear, Iso8601.separatedDay, reader_bind, skip_self, skip_of_head noWeek,
    digits_append all stops, Option.bind_some, Bool.false_eq_true, ↓reduceIte, notThree,
    reader_guard two, skipped]
  cases came with
  | true =>
      simp only [↓reduceIte] at read ⊢
      rw [reader_bind, read, Option.bind_some]
      exact named
  | false =>
      simp only [Bool.false_eq_true, ↓reduceIte] at read ⊢
      rw [reader_bind, read, Option.bind_some]
      exact named

/-- A month and a day of the format are read by ISO 8601 if they are on the calendar. -/
theorem dayOfYear_of_isoMonthDay {year : ℤ} {month day : ℕ}
    (read : isoMonthDay text = some ((month, day), rest)) (ends : ∀ c ∈ rest.head?, c = 'T') :
    Iso8601.dayOfYear year text =
      if Calendar.Date.Valid ⟨year, month - 1, day⟩ then
        some (Calendar.dayOf ⟨year, month - 1, day⟩, rest)
      else none := by
  simp only [isoMonthDay, reader_bind_eq_some, skip_eq_some] at read
  obtain ⟨_, middle, ⟨rfl, rfl⟩ | ⟨rfl, noMonth, rfl⟩, read⟩ := read
  · simp only [↓reduceIte, reader_bind_eq_some, numberIn_eq_some, skip_eq_some] at read
    obtain ⟨m, later, ⟨found, low, high⟩, _, after, second, read⟩ := read
    obtain ⟨run, rfl, two, all, rfl⟩ := exists_digits_of_number found
    rcases second with ⟨rfl, rfl⟩ | ⟨rfl, noDay, rfl⟩
    · simp only [↓reduceIte, reader_bind_eq_some, numberIn_eq_some, reader_pure_eq_some,
        Prod.mk.injEq] at read
      obtain ⟨d, _, ⟨found', -, -⟩, ⟨rfl, rfl⟩, rfl⟩ := read
      refine dayOfYear_of_month two all low (fun c head => by cases head; rfl) ?_
      rw [reader_bind, skip_self, Option.bind_some]
      exact found'
    · simp only [Bool.false_eq_true, ↓reduceIte, reader_pure_eq_some, Prod.mk.injEq] at read
      obtain ⟨⟨rfl, rfl⟩, rfl⟩ := read
      refine dayOfYear_of_month two all low (fun c head => by rw [ends c head]; rfl) ?_
      rw [reader_bind, skip_of_head noDay, Option.bind_some]
      rfl
  · simp only [Bool.false_eq_true, ↓reduceIte, reader_pure_eq_some, Prod.mk.injEq] at read
    obtain ⟨⟨rfl, rfl⟩, rfl⟩ := read
    have valid : Calendar.Date.Valid ⟨year, 1 - 1, 1⟩ := ⟨Nat.one_pos, 31, rfl, by norm_num⟩
    rw [dayOfYear_of_not_separated noMonth ends, if_pos valid, Calendar.dayOf, Calendar.monthStart]
    simp

/-! ## Times of day -/

/-- Nothing is left of a time before its zone or its end. -/
theorem remainder_of_ends (ends : ∀ c ∈ text.head?, c ∈ ['Z', '+', '-']) (unit : ℕ)
    (smaller : Reader ℕ) : Iso8601.remainder unit smaller text = some (0, text) := by
  cases text with
  | nil => rfl
  | cons c later =>
      have symbol := ends c rfl
      simp only [List.mem_cons, List.not_mem_nil, or_false] at symbol
      rcases symbol with rfl | rfl | rfl <;> rfl

/-- A part of a time behind its colon. -/
theorem remainder_colon (unit : ℕ) (smaller : Reader ℕ) :
    Iso8601.remainder unit smaller (':' :: text) = smaller text := by
  simp only [Iso8601.remainder, reader_bind, skipAny_of_notMem (by decide : ':' ∉ ['.', ',']),
    Option.bind_some, Bool.false_eq_true, ↓reduceIte, skip_self]

/-- A fraction of the format is digits, and its first three are the milliseconds. -/
theorem remainder_of_isoFraction {fraction : List Char}
    (read : isoFraction text = some (fraction, rest))
    (ends : ∀ c ∈ rest.head?, c ∈ ['Z', '+', '-']) :
    (∀ c ∈ fraction, c.isDigit = true) ∧ Iso8601.remainder 1000 failure text =
      some (Decimal.value ((fraction ++ ['0', '0', '0']).take 3), rest) := by
  simp only [isoFraction, reader_bind_eq_some, skip_eq_some] at read
  obtain ⟨_, middle, ⟨rfl, rfl⟩ | ⟨rfl, noPoint, rfl⟩, read⟩ := read
  · simp only [↓reduceIte, reader_bind_eq_some, reader_guard_eq_some, reader_pure_eq_some] at read
    obtain ⟨run, _, found, _, _, ⟨nonempty, rfl⟩, rfl, rfl⟩ := read
    have all : ∀ c ∈ fraction, c.isDigit = true := by
      obtain ⟨rfl, -⟩ := Prod.mk.inj (Option.some.inj found)
      exact fun c member => List.mem_takeWhile_imp member
    refine ⟨all, ?_⟩
    simp only [Iso8601.remainder, reader_bind,
      skipAny_of_mem (List.mem_cons_self : '.' ∈ ['.', ',']), Option.bind_some, ↓reduceIte, found,
      reader_guard nonempty, reader_pure]
    exact congrArg (fun ms => some (ms, rest)) (Decimal.value_take_append_zeros all 3).symm
  · simp only [Bool.false_eq_true, ↓reduceIte, reader_pure_eq_some] at read
    obtain ⟨rfl, rfl⟩ := read
    exact ⟨fun c member => absurd member List.not_mem_nil, remainder_of_ends ends 1000 failure⟩

/-- Seconds of the format, or none, are seconds of ISO 8601. -/
theorem remainder_of_isoSeconds {second : ℕ} {fraction : List Char}
    (read : isoSeconds text = some ((second, fraction), rest))
    (ends : ∀ c ∈ rest.head?, c ∈ ['Z', '+', '-']) :
    second ≤ 59 ∧ (∀ c ∈ fraction, c.isDigit = true) ∧
      Iso8601.remainder 60000 Iso8601.seconds text = some
        (second * 1000 + Decimal.value ((fraction ++ ['0', '0', '0']).take 3), rest) := by
  simp only [isoSeconds, reader_bind_eq_some, skip_eq_some] at read
  obtain ⟨_, middle, ⟨rfl, rfl⟩ | ⟨rfl, noColon, rfl⟩, read⟩ := read
  · simp only [↓reduceIte, reader_bind_eq_some, reader_pure_eq_some, Prod.mk.injEq] at read
    obtain ⟨_, later, found, _, _, decimals, ⟨rfl, rfl⟩, rfl⟩ := read
    obtain ⟨all, milliseconds⟩ := remainder_of_isoFraction decimals ends
    refine ⟨(numberIn_eq_some.mp found).2.2, all, ?_⟩
    rw [remainder_colon]
    simp only [Iso8601.seconds, reader_bind, found, Option.bind_some, milliseconds, reader_pure]
  · simp only [Bool.false_eq_true, ↓reduceIte, reader_pure_eq_some, Prod.mk.injEq] at read
    obtain ⟨⟨rfl, rfl⟩, rfl⟩ := read
    refine ⟨Nat.zero_le _, fun c member => absurd member List.not_mem_nil, ?_⟩
    rw [remainder_of_ends ends]
    rfl

/-- A time of the format is that time of ISO 8601. -/
theorem clock_of_isoTime {time : ℤ} (read : isoTime text = some (time, rest))
    (ends : ∀ c ∈ rest.head?, c ∈ ['Z', '+', '-']) :
    ∃ ms : ℕ, time = ms ∧ Iso8601.clock text = some (ms, rest) := by
  simp only [isoTime, reader_bind_eq_some, expect_eq_some, reader_guard_eq_some,
    reader_pure_eq_some] at read
  obtain ⟨hour, _, hours, _, middle, rfl, minute, later, minutes, ⟨second, fraction⟩, _, seconds,
    _, _, ⟨midnight, rfl⟩, rfl, rfl⟩ := read
  obtain ⟨second_le, all, remainder⟩ := remainder_of_isoSeconds seconds ends
  obtain ⟨-, -, hour_le⟩ := numberIn_eq_some.mp hours
  obtain ⟨-, -, minute_le⟩ := numberIn_eq_some.mp minutes
  have ms_eq : Decimal.value ((fraction ++ ['0', '0', '0']).take 3) =
      Decimal.value fraction * 10 ^ 3 / 10 ^ fraction.length :=
    Decimal.value_take_append_zeros all 3
  have ms_lt : Decimal.value ((fraction ++ ['0', '0', '0']).take 3) < 10 ^ 3 := by
    rw [ms_eq, Nat.div_lt_iff_lt_mul (by positivity), mul_comm]
    exact Nat.mul_lt_mul_of_pos_left (Decimal.value_lt all) (by norm_num)
  have total : hour * 3600000 + (minute * 60000 + (second * 1000 +
      Decimal.value ((fraction ++ ['0', '0', '0']).take 3))) ≤ 86400000 := by
    by_cases last : hour = 24
    · obtain ⟨rfl, rfl, zero⟩ := midnight last
      rw [zero, Nat.zero_mul, Nat.zero_div] at ms_eq
      omega
    · omega
  refine ⟨hour * 3600000 + (minute * 60000 + (second * 1000 +
    Decimal.value ((fraction ++ ['0', '0', '0']).take 3))), ?_, ?_⟩
  · unfold makeTime
    push_cast
    ring
  · have parts : Iso8601.hours text = some (hour * 3600000 + (minute * 60000 + (second * 1000 +
        Decimal.value ((fraction ++ ['0', '0', '0']).take 3))), rest) := by
      simp only [Iso8601.hours, Iso8601.minutes, reader_bind, hours, Option.bind_some,
        remainder_colon, minutes, remainder, reader_pure]
    rw [Iso8601.clock, reader_bind, parts, Option.bind_some, reader_bind, reader_guard total]
    rfl

/-! ## Zones -/

/-- How far a zone is from UTC, if the text says so. -/
def Zone.difference : Zone → Option ℤ
  | utc => some 0
  | server => none
  | offset minutes => some (minutes * 60000)

theorem offset_of_colon {hour minute : ℕ} {middle : List Char}
    (hours : numberIn 0 23 text = some (hour, ':' :: middle))
    (minutes : numberIn 0 59 middle = some (minute, rest)) :
    Iso8601.offset text = some ((hour * 60 + minute) * 60000, rest) := by
  simp only [Iso8601.offset, reader_bind, hours, Option.bind_some, skip_self, ↓reduceIte, minutes,
    reader_pure]

/-- A zone designator at the end of a text is one of ISO 8601. -/
theorem zone_of_isoZone {zone : Zone} (read : isoZone text = some (zone, [])) :
    Iso8601.zone text = some (zone.difference, []) ∧
      ∀ c ∈ text.head?, c ∈ ['Z', '+', '-'] := by
  simp only [isoZone, reader_bind_eq_some, skip_eq_some] at read
  obtain ⟨_, middle, ⟨rfl, rfl⟩ | ⟨rfl, noZulu, rfl⟩, read⟩ := read
  · simp only [↓reduceIte, reader_pure_eq_some] at read
    obtain ⟨rfl, rfl⟩ := read
    exact ⟨rfl, by simp⟩
  simp only [Bool.false_eq_true, ↓reduceIte, reader_bind_eq_some, skip_eq_some] at read
  obtain ⟨_, middle, ⟨rfl, rfl⟩ | ⟨rfl, noPlus, rfl⟩, read⟩ := read
  · simp only [↓reduceIte, reader_bind_eq_some, expect_eq_some, reader_pure_eq_some] at read
    obtain ⟨hour, _, hours, _, _, rfl, minute, _, minutes, rfl, rfl⟩ := read
    refine ⟨?_, by simp⟩
    have noZulu : '+' ∉ ['Z', 'z'] := by decide
    simp only [Iso8601.zone, reader_bind, skipAny_of_notMem noZulu, skip_self, Option.bind_some,
      Bool.false_eq_true, ↓reduceIte, offset_of_colon hours minutes, reader_pure, Zone.difference]
    push_cast
    rfl
  simp only [Bool.false_eq_true, ↓reduceIte, reader_bind_eq_some, skip_eq_some] at read
  obtain ⟨_, middle, ⟨rfl, rfl⟩ | ⟨rfl, noMinus, rfl⟩, read⟩ := read
  · simp only [↓reduceIte, reader_bind_eq_some, expect_eq_some, reader_pure_eq_some] at read
    obtain ⟨hour, _, hours, _, _, rfl, minute, _, minutes, rfl, rfl⟩ := read
    refine ⟨?_, by simp⟩
    have noZulu : '-' ∉ ['Z', 'z'] := by decide
    simp only [Iso8601.zone, reader_bind, skipAny_of_notMem noZulu, skip_self,
      skip_ne (by decide : '-' ≠ '+'), Option.bind_some, Bool.false_eq_true, ↓reduceIte,
      offset_of_colon hours minutes, reader_pure, Zone.difference]
    push_cast
    rw [neg_mul]
  · simp only [Bool.false_eq_true, ↓reduceIte, reader_pure_eq_some] at read
    obtain ⟨rfl, rfl⟩ := read
    exact ⟨rfl, fun c impossible => by cases impossible⟩

/-! ## Whole texts -/

/-- What follows the year of a text in the format is no digit. -/
theorem notDigit_of_isoMonthDay {month day : ℕ}
    (read : isoMonthDay text = some ((month, day), rest)) (ends : ∀ c ∈ rest.head?, c = 'T') :
    1 ≤ month ∧ ∀ c ∈ text.head?, c.isDigit = false := by
  simp only [isoMonthDay, reader_bind_eq_some, skip_eq_some] at read
  obtain ⟨_, middle, ⟨rfl, rfl⟩ | ⟨rfl, noMonth, rfl⟩, read⟩ := read
  · simp only [↓reduceIte, reader_bind_eq_some, numberIn_eq_some, skip_eq_some] at read
    obtain ⟨m, later, ⟨-, low, -⟩, _, after, second, read⟩ := read
    refine ⟨?_, fun c head => by cases head; rfl⟩
    rcases second with ⟨rfl, rfl⟩ | ⟨rfl, noDay, rfl⟩
    · simp only [↓reduceIte, reader_bind_eq_some, reader_pure_eq_some, Prod.mk.injEq] at read
      obtain ⟨d, _, -, ⟨rfl, -⟩, -⟩ := read
      exact low
    · simp only [Bool.false_eq_true, ↓reduceIte, reader_pure_eq_some, Prod.mk.injEq] at read
      exact read.1.1 ▸ low
  · simp only [Bool.false_eq_true, ↓reduceIte, reader_pure_eq_some, Prod.mk.injEq] at read
    obtain ⟨⟨rfl, rfl⟩, rfl⟩ := read
    exact ⟨le_refl _, fun c head => by rw [ends c head]; rfl⟩

/-- Two digits right after a year are no date. -/
theorem dayOfYear_of_two_digits {year : ℤ} {run : List Char} (two : run.length = 2)
    (all : ∀ c ∈ run, c.isDigit = true) (stops : ∀ c ∈ rest.head?, c.isDigit = false) :
    Iso8601.dayOfYear year (run ++ rest) = none := by
  obtain ⟨c, later, rfl⟩ := List.exists_cons_of_length_pos (by omega : 0 < run.length)
  have first := all c List.mem_cons_self
  have noMonth : c ≠ '-' := by rintro rfl; cases first
  have noWeek : c ≠ 'W' := by rintro rfl; cases first
  have run := digits_append all stops
  rw [List.cons_append] at run ⊢
  simp only [Iso8601.dayOfYear, Iso8601.plainDay, reader_bind, skip_ne noMonth, skip_ne noWeek,
    run, Option.bind_some, Bool.false_eq_true, ↓reduceIte, two]
  rfl

/-- Of six digits the first four are a year, and the other two are left. -/
theorem dayOfYear_of_six_digits {n : ℕ} (six : number 6 text = some (n, rest))
    (stops : ∀ c ∈ rest.head?, c.isDigit = false) (year : ℕ → ℤ) :
    ((number 4 text).bind fun read => Iso8601.dayOfYear (year read.1) read.2) = none := by
  obtain ⟨run, rfl, length, all, rfl⟩ := exists_digits_of_number six
  have four : (run.take 4).length = 4 := by rw [List.length_take]; omega
  have digits : (run.take 4).all Char.isDigit = true :=
    List.all_eq_true.mpr fun c member => all c (List.mem_of_mem_take member)
  have front : number 4 (run ++ rest) =
      some (Decimal.value (run.take 4), run.drop 4 ++ rest) := by
    simp only [number, List.take_append_of_le_length (by omega : 4 ≤ run.length),
      List.drop_append_of_le_length (by omega : 4 ≤ run.length), four, digits, and_self,
      ↓reduceIte]
  rw [front, Option.bind_some]
  exact dayOfYear_of_two_digits (by rw [List.length_drop]; omega)
    (fun c member => all c (List.mem_of_mem_drop member)) stops

/-- A text whose date is unread with six digits for its year is unread with four of them too. -/
theorem moment_four_eq_none {year : ℤ} (read : isoYear text = some (year, rest))
    (stops : ∀ c ∈ rest.head?, c.isDigit = false)
    (unread : Iso8601.dayOfYear year rest = none) : Iso8601.moment 4 text = none := by
  simp only [isoYear, reader_bind_eq_some, skip_eq_some] at read
  obtain ⟨_, middle, ⟨rfl, rfl⟩ | ⟨rfl, noPlus, rfl⟩, read⟩ := read
  · simp only [↓reduceIte, reader_bind_eq_some, reader_pure_eq_some] at read
    obtain ⟨n, _, found, rfl, rfl⟩ := read
    simp only [Iso8601.moment, Iso8601.year, reader_bind, skip_self, Option.bind_some, ↓reduceIte,
      reader_pure, Option.bind_assoc]
    rw [← Option.bind_assoc, dayOfYear_of_six_digits found stops, Option.bind_none]
  simp only [Bool.false_eq_true, ↓reduceIte, reader_bind_eq_some, skip_eq_some] at read
  obtain ⟨_, middle, ⟨rfl, rfl⟩ | ⟨rfl, noMinus, rfl⟩, read⟩ := read
  · simp only [↓reduceIte, reader_bind_eq_some, reader_guard_eq_some, reader_pure_eq_some] at read
    obtain ⟨n, _, found, _, _, ⟨-, rfl⟩, rfl, rfl⟩ := read
    simp only [Iso8601.moment, Iso8601.year, reader_bind, skip_ne (by decide : '-' ≠ '+'),
      skip_self, Option.bind_some, Bool.false_eq_true, ↓reduceIte, reader_pure, Option.bind_assoc]
    rw [← Option.bind_assoc, dayOfYear_of_six_digits found stops fun k => -(k : ℤ), Option.bind_none]
  · simp only [Bool.false_eq_true, ↓reduceIte, reader_bind_eq_some, reader_pure_eq_some] at read
    obtain ⟨n, _, found, rfl, rfl⟩ := read
    simp only [Iso8601.moment, Iso8601.year, reader_bind, skip_of_head noPlus, skip_of_head noMinus,
      Option.bind_some, Bool.false_eq_true, ↓reduceIte, found, reader_pure, unread,
      Option.bind_none]

/-- A date without a time is a day. -/
theorem moment_of_date {year day : ℤ} {middle : List Char}
    (years : isoYear text = some (year, middle))
    (dates : Iso8601.dayOfYear year middle = some (day, [])) :
    Iso8601.moment 6 text = some (.day day, []) := by
  simp only [Iso8601.moment, reader_bind, year_of_isoYear years, dates, Option.bind_some]
  rfl

/-- A date with a time is a wall-clock time or an instant. -/
theorem moment_of_time {year day time : ℤ} {zone : Zone} {middle later designator : List Char}
    (years : isoYear text = some (year, middle))
    (dates : Iso8601.dayOfYear year middle = some (day, 'T' :: later))
    (times : isoTime later = some (time, designator))
    (zones : isoZone designator = some (zone, [])) :
    Iso8601.moment 6 text = some (zone.difference.elim (.wall (day * msPerDay + time))
      fun offset => .instant (day * msPerDay + time - offset), []) := by
  obtain ⟨designated, ends⟩ := zone_of_isoZone zones
  obtain ⟨clock, rfl, clocks⟩ := clock_of_isoTime times ends
  simp only [Iso8601.moment, reader_bind, year_of_isoYear years, dates, Option.bind_some,
    skipAny_of_mem (List.mem_cons_self : 'T' ∈ ['T', 't', ' ']), ↓reduceIte, clocks, designated,
    reader_pure, msPerDay]

/-- On the format, a text denotes the moments of what `new Date` reads, if its date is one of the
calendar, and otherwise none. -/
theorem denotes_iff {text : String} {wall ms : ℤ} {zone : Zone} {zoneOffset : ℤ → ℤ}
    (read : isoDateTime text.toList = some ((wall, zone), [])) :
    Iso8601.Denotes zoneOffset text ms ↔
      onCalendar text.toList = true ∧ zone.IsAt zoneOffset wall ms := by
  simp only [isoDateTime, reader_bind_eq_some, skip_eq_some] at read
  obtain ⟨year, middle, years, ⟨month, day⟩, rest, dates, timed, later, skipped, read⟩ := read
  have ends : ∀ c ∈ rest.head?, c = 'T' := by
    rcases skipped with ⟨rfl, rfl⟩ | ⟨rfl, noTime, rfl⟩
    · exact fun c head => (Option.some.inj head).symm
    · simp only [Bool.false_eq_true, ↓reduceIte, reader_pure_eq_some] at read
      obtain ⟨-, rfl⟩ := read
      exact fun c impossible => by cases impossible
  obtain ⟨positive, stops⟩ := notDigit_of_isoMonthDay dates ends
  have named := @dayOfYear_of_isoMonthDay _ _ year _ _ dates ends
  have calendar : onCalendar text.toList = decide (Calendar.Date.Valid ⟨year, month - 1, day⟩) := by
    simp only [onCalendar, reader_bind, years, dates, Option.bind_some, reader_pure,
      Option.any_some]
  rw [calendar, decide_eq_true_eq]
  by_cases valid : Calendar.Date.Valid ⟨year, month - 1, day⟩
  · rw [if_pos valid] at named
    rw [and_iff_right valid]
    have cast : ((month - 1 : ℕ) : ℤ) = (month : ℤ) - 1 := by omega
    have midnight := makeDay_date valid
    rw [cast] at midnight
    rcases skipped with ⟨rfl, rfl⟩ | ⟨rfl, noTime, rfl⟩
    · simp only [↓reduceIte, reader_bind_eq_some, reader_pure_eq_some, Prod.mk.injEq] at read
      obtain ⟨time, _, times, zone, _, zones, ⟨rfl, rfl⟩, rfl⟩ := read
      rw [midnight, Iso8601.denotes_of_moment (moment_of_time years named times zones)]
      cases zone <;> simp [Zone.difference, Zone.IsAt, Iso8601.Moment.IsAt]
    · simp only [Bool.false_eq_true, ↓reduceIte, reader_pure_eq_some, Prod.mk.injEq] at read
      obtain ⟨⟨rfl, rfl⟩, rfl⟩ := read
      rw [midnight, Iso8601.denotes_of_moment (moment_of_date years named)]
      exact Iff.rfl
  · rw [if_neg valid] at named
    refine iff_of_false ?_ fun both => valid both.1
    rintro ⟨moment, found, -⟩
    have six : Iso8601.moment 6 text.toList = none := by
      simp only [Iso8601.moment, reader_bind, year_of_isoYear years, named, Option.bind_some,
        Option.bind_none]
    have four := moment_four_eq_none years stops named
    rw [Iso8601.read, whole, whole, six, four] at found
    cases found

example : onCalendar "2026-02-29".toList = false ∧
    onCalendar "2028-02-29T12:00".toList = true := by decide +kernel

end Readings

end BirrTrack.Js
