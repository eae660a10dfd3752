import BirrTrack.Foundation.Calendar
import BirrTrack.Foundation.Readers

/-! # What ISO 8601 texts denote

A date is written with its month and day, with the number of the day in the year, or with a
week and a day of the week; a time of day with hours, minutes and seconds, the last of them with
decimals; both with their separators or without. A text denotes a day, a wall-clock time or, with
an offset from UTC, an instant, and `Denotes` says at which millisecond that is.
-/

namespace Iso8601

open Readers

/-- What a text denotes; times in milliseconds, decimals of one being dropped. -/
inductive Moment where
  | day (day : ℤ)
  | wall (ms : ℤ)
  | instant (ms : ℤ)
  deriving DecidableEq

/-! ## Days -/

/-- A day of a month; months are counted from one. -/
def calendarDay (year : ℤ) (month day : ℕ) : Option ℤ :=
  let date : Calendar.Date := ⟨year, month - 1, day⟩
  if 0 < month ∧ date.Valid then some (Calendar.dayOf date) else none

/-- A day of a year, counted from one. -/
def ordinalDay (year : ℤ) (n : ℕ) : Option ℤ :=
  if 0 < n ∧ n ≤ Calendar.yearLength year then some (Calendar.yearStart year + n - 1) else none

/-- The Monday of a year's first week, which is the week of 4 January. -/
def firstMonday (year : ℤ) : ℤ :=
  let fourth := Calendar.yearStart year + 3
  -- 1 January 1970 was a Thursday.
  fourth - (fourth + 3) % 7

/-- A day of a week, counted from Monday. -/
def weekDay (year : ℤ) (week weekday : ℕ) : Option ℤ :=
  let monday := firstMonday year + 7 * (week - 1)
  if 0 < week ∧ monday < firstMonday (year + 1) ∧ 0 < weekday ∧ weekday ≤ 7 then
    some (monday + weekday - 1)
  else none

/-- The number of a day of the week; a week without it stands for its Monday. -/
def weekday : Reader ℕ := do
  if ← skip '-' then number 1
  else if ← digitNext then number 1
  else return 1

/-- The month and the day after a year and its separator, or the number of the day. -/
def separatedDay (year : ℤ) : Reader ℤ := do
  let run ← digits
  if run.length = 3 then ordinalDay year (Decimal.value run)
  else
    guard (run.length = 2)
    let day ← if ← skip '-' then number 2 else pure 1
    calendarDay year (Decimal.value run) day

/-- The month and the day right after a year, or the number of the day, or nothing. -/
def plainDay (year : ℤ) : Reader ℤ := do
  let run ← digits
  if run.length = 4 then
    calendarDay year (Decimal.value (run.take 2)) (Decimal.value (run.drop 2))
  else if run.length = 3 then ordinalDay year (Decimal.value run)
  else
    guard (run = [])
    return Calendar.yearStart year

def dayOfYear (year : ℤ) : Reader ℤ := do
  let separated ← skip '-'
  if ← skip 'W' then
    let week ← number 2
    weekDay year week (← weekday)
  else if separated then separatedDay year
  else plainDay year

/-- Four digits, or a sign and as many digits as were agreed on. -/
def year (signed : ℕ) : Reader ℤ := do
  if ← skip '+' then return (← number signed : ℕ)
  else if ← skip '-' then return -(← number signed : ℕ)
  else return (← number 4 : ℕ)

/-! ## Times of day -/

/-- What follows a part of the time: its decimals or the smaller parts, in milliseconds. -/
def remainder (unit : ℕ) (smaller : Reader ℕ) : Reader ℕ := do
  if ← skipAny ['.', ','] then
    let decimals ← digits
    guard (decimals ≠ [])
    return Decimal.value decimals * unit / 10 ^ decimals.length
  else if ← skip ':' then smaller
  else if ← digitNext then smaller
  else return 0

def seconds : Reader ℕ := do
  return (← numberIn 0 59) * 1000 + (← remainder 1000 failure)

def minutes : Reader ℕ := do
  return (← numberIn 0 59) * 60000 + (← remainder 60000 seconds)

def hours : Reader ℕ := do
  return (← numberIn 0 24) * 3600000 + (← remainder 3600000 minutes)

/-- The time of day; the hour 24 only exists as midnight. -/
def clock : Reader ℕ := do
  let ms ← hours
  guard (ms ≤ 86400000)
  return ms

/-- Hours and minutes of an offset, in milliseconds. -/
def offset : Reader ℕ := do
  let hours ← numberIn 0 23
  if ← skip ':' then return (hours * 60 + (← numberIn 0 59)) * 60000
  else if ← digitNext then return (hours * 60 + (← numberIn 0 59)) * 60000
  else return hours * 3600000

/-- The offset from UTC, if one is written. -/
def zone : Reader (Option ℤ) := do
  if ← skipAny ['Z', 'z'] then return some 0
  else if ← skip '+' then return some (← offset : ℕ)
  else if ← skip '-' then return some (-(← offset : ℕ))
  else return none

/-! ## Moments -/

def moment (signed : ℕ) : Reader Moment := do
  let day ← dayOfYear (← year signed)
  if ← skipAny ['T', 't', ' '] then
    let wall := day * 86400000 + (← clock : ℕ)
    return (← zone).elim (.wall wall) fun offset => .instant (wall - offset)
  else return .day day

/-- What a text denotes; a sign stands before years of six digits, or of four. -/
def read (text : List Char) : Option Moment :=
  (whole (moment 6) text).or (whole (moment 4) text)

/-- The millisecond of a moment, with local time as far from UTC as given; a day stands for
its midnight in UTC. -/
def Moment.IsAt (zoneOffset : ℤ → ℤ) (ms : ℤ) : Moment → Prop
  | .day number => ms = number * 86400000
  | .wall time => ms + zoneOffset ms = time
  | .instant time => ms = time

instance (zoneOffset : ℤ → ℤ) (ms : ℤ) : DecidablePred (Moment.IsAt zoneOffset ms)
  | .day number => inferInstanceAs (Decidable (ms = number * 86400000))
  | .wall time => inferInstanceAs (Decidable (ms + zoneOffset ms = time))
  | .instant time => inferInstanceAs (Decidable (ms = time))

/-- A text denotes a millisecond. -/
def Denotes (zoneOffset : ℤ → ℤ) (text : String) (ms : ℤ) : Prop :=
  ∃ moment ∈ read text.toList, moment.IsAt zoneOffset ms

instance (zoneOffset : ℤ → ℤ) (text : String) : DecidablePred (Denotes zoneOffset text) :=
  fun ms => inferInstanceAs (Decidable (∃ moment ∈ read text.toList, moment.IsAt zoneOffset ms))

example : Denotes (fun _ => 0) "2024-012" 1705017600000 ∧
    Denotes (fun _ => 0) "2024-W02-5" 1705017600000 ∧
    Denotes (fun _ => 10800000) "20240112T03" 1705017600000 := by decide +kernel

/-- A text that is a moment with years of six digits denotes the milliseconds of that moment. -/
theorem denotes_of_moment {zoneOffset : ℤ → ℤ} {text : String} {ms : ℤ} {meant : Moment}
    (read : moment 6 text.toList = some (meant, [])) :
    Denotes zoneOffset text ms ↔ meant.IsAt zoneOffset ms := by
  rw [Denotes, Iso8601.read, whole_eq_some read, Option.some_or]
  exact ⟨fun denoted => by obtain ⟨_, ⟨⟩, here⟩ := denoted; exact here, fun here => ⟨_, rfl, here⟩⟩

/-! ## What the calendar writes -/

section Written

variable {rest : List Char}

theorem year_yearText {y : ℤ} (fits : y.natAbs < 10 ^ 6) :
    year 6 (Calendar.yearText y ++ rest) = some (y, rest) := by
  unfold year Calendar.yearText
  split
  next plain =>
    have four : y.natAbs < 10 ^ 4 := by omega
    have cast : (y.natAbs : ℤ) = y := by omega
    simp only [reader_bind, skip_padded (by decide : Char.isDigit '+' = false),
      skip_padded (by decide : Char.isDigit '-' = false), Option.bind_some, Bool.false_eq_true,
      ↓reduceIte, number_padded four, reader_pure, cast]
  next expanded =>
    by_cases negative : y < 0
    · have cast : -(y.natAbs : ℤ) = y := by omega
      simp only [negative, ↓reduceIte, List.cons_append, reader_bind,
        skip_ne (by decide : '-' ≠ '+'), skip_self, Option.bind_some, Bool.false_eq_true,
        number_padded fits, reader_pure, cast]
    · have cast : (y.natAbs : ℤ) = y := by omega
      simp only [negative, ↓reduceIte, List.cons_append, reader_bind, skip_self, Option.bind_some,
        number_padded fits, reader_pure, cast]

/-- The month and the day of a valid date. -/
theorem dayOfYear_text {date : Calendar.Date} (valid : date.Valid) :
    dayOfYear date.year ('-' :: (Decimal.padded 2 (date.month + 1) ++
        '-' :: (Decimal.padded 2 date.day ++ rest))) = some (Calendar.dayOf date, rest) := by
  have month : date.month + 1 < 10 ^ 2 := Nat.lt_of_le_of_lt valid.month_lt (by decide)
  have day : date.day < 10 ^ 2 := Nat.lt_of_le_of_lt valid.day_le (by decide)
  have noWeek := @skip_padded ('-' :: (Decimal.padded 2 date.day ++ rest)) 'W' rfl 1
    (date.month + 1)
  have run := @digits_padded ('-' :: (Decimal.padded 2 date.day ++ rest)) 2 (date.month + 1)
    fun c head => by cases head; rfl
  have named : calendarDay date.year (date.month + 1) date.day = some (Calendar.dayOf date) :=
    if_pos ⟨Nat.succ_pos _, valid⟩
  simp only [dayOfYear, reader_bind, skip_self, noWeek, Option.bind_some, Bool.false_eq_true,
    ↓reduceIte, separatedDay, run, Decimal.length_padded, Nat.reduceEqDiff,
    reader_guard, Decimal.value_padded_of_lt month, number_padded day, named]
  rfl

/-- A time of day to the second, with its decimals. -/
theorem clock_clockText {time : ℕ} (inDay : time < 86400) {ms : ℕ}
    (inSecond : ms < 10 ^ 3) (stops : ∀ c ∈ rest.head?, c.isDigit = false) :
    clock (Calendar.clockText time ++ '.' :: (Decimal.padded 3 ms ++ rest)) =
      some (time * 1000 + ms, rest) := by
  have decimals : remainder 1000 failure ('.' :: (Decimal.padded 3 ms ++ rest)) =
      some (ms, rest) := by
    have nonempty : Decimal.padded 3 ms ≠ [] := by
      rw [← List.length_pos_iff, Decimal.length_padded]
      decide
    have value : Decimal.value (Decimal.padded 3 ms) * 1000 / 10 ^ 3 = ms := by
      rw [Decimal.value_padded_of_lt inSecond]
      omega
    simp only [remainder, reader_bind, skipAny_of_mem (List.mem_cons_self : '.' ∈ ['.', ',']),
      Option.bind_some, ↓reduceIte, digits_padded 3 ms stops, reader_guard nonempty, reader_pure,
      Decimal.length_padded, value]
  have colon : ∀ unit smaller text,
      remainder unit smaller (':' :: text) = smaller text := by
    intro unit smaller text
    simp only [remainder, reader_bind, skipAny_of_notMem (by decide : ':' ∉ ['.', ',']),
      Option.bind_some, Bool.false_eq_true, ↓reduceIte, skip_self]
  have total : time / 3600 * 3600000 +
      (time / 60 % 60 * 60000 + (time % 60 * 1000 + ms)) = time * 1000 + ms := by omega
  have midnight : time * 1000 + ms ≤ 86400000 := by omega
  have text : hours (Calendar.clockText time ++ '.' :: (Decimal.padded 3 ms ++ rest)) =
      some (time * 1000 + ms, rest) := by
    simp only [hours, minutes, seconds, Calendar.clockText, List.append_assoc, List.cons_append,
      reader_bind, colon, decimals, Option.bind_some, reader_pure, total,
      numberIn_padded (Nat.zero_le _) (by omega : time / 3600 ≤ 24) (by omega),
      numberIn_padded (Nat.zero_le _) (by omega : time / 60 % 60 ≤ 59) (by omega),
      numberIn_padded (Nat.zero_le _) (by omega : time % 60 ≤ 59) (by omega)]
  rw [clock, reader_bind, text, Option.bind_some, reader_bind, reader_guard midnight]
  rfl

/-- A date and a time in UTC are read as their instant. -/
theorem read_utcText {date : Calendar.Date} (valid : date.Valid)
    (fits : date.year.natAbs < 10 ^ 6) {time : ℕ} (inDay : time < 86400) {ms : ℕ}
    (inSecond : ms < 10 ^ 3) :
    read (Calendar.dateText date ++ 'T' ::
        (Calendar.clockText time ++ '.' :: (Decimal.padded 3 ms ++ ['Z']))) =
      some (.instant (Calendar.dayOf date * 86400000 + (time * 1000 + ms : ℕ))) := by
  have stops : ∀ c ∈ ['Z'].head?, c.isDigit = false := fun c head => by cases head; rfl
  have text : moment 6 (Calendar.dateText date ++ 'T' ::
      (Calendar.clockText time ++ '.' :: (Decimal.padded 3 ms ++ ['Z']))) =
      some (.instant (Calendar.dayOf date * 86400000 + (time * 1000 + ms : ℕ)), []) := by
    have zulu : zone ['Z'] = some (some 0, []) := rfl
    simp only [moment, Calendar.dateText, List.append_assoc, List.cons_append, reader_bind,
      year_yearText fits, dayOfYear_text valid, Option.bind_some,
      skipAny_of_mem (List.mem_cons_self : 'T' ∈ ['T', 't', ' ']), ↓reduceIte,
      clock_clockText inDay inSecond stops, zulu, reader_pure, Option.elim_some, sub_zero]
  rw [read, whole_eq_some text, Option.some_or]

end Written

end Iso8601
