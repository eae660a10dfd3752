import BirrTrack.Foundation.Iso8601

/-! # ECMAScript dates

Time values, `Date.UTC`, `toISOString` and `new Date(text)`. The date-time string
format is parsed as V8 parses it: a date without a time is in UTC, a date-time
without a zone designator in the server's local time. Every other text is left to the
engine's own fallback. `newDate_toISOString` is the round trip.
-/

namespace BirrTrack.Js

open Calendar (yearText dateText clockText)
open Readers

/-- Milliseconds since 1 January 1970, within the range of a Date. -/
@[ext] structure TimeValue where
  ms : ℤ
  inRange : |ms| ≤ 8640000000000000
  deriving DecidableEq

/-- A Date object: its time value, or none for an Invalid Date. -/
abbrev Date := Option TimeValue

def timeClip (ms : ℤ) : Date :=
  if inRange : |ms| ≤ 8640000000000000 then some ⟨ms, inRange⟩ else none

@[simp] theorem timeClip_ms (t : TimeValue) : timeClip t.ms = some t := by
  simp only [timeClip, t.inRange, ↓reduceDIte]

theorem timeClip_eq_some {ms : ℤ} {t : TimeValue} (clipped : timeClip ms = some t) : t.ms = ms := by
  unfold timeClip at clipped
  split at clipped
  · cases clipped
    rfl
  · cases clipped

def msPerDay : ℤ := 86400000

/-- `MakeDay` -/
def makeDay (year month day : ℤ) : ℤ :=
  Calendar.monthStart (year + month / 12) (month % 12).toNat + day - 1

/-- `MakeTime` -/
def makeTime (hour minute second ms : ℤ) : ℤ := ((hour * 60 + minute) * 60 + second) * 1000 + ms

/-- `new Date(Date.UTC(year, month, day, hour, minute, second))`; a year below a
hundred is one of the twentieth century. -/
def dateUTC (year month day hour minute second : ℤ) : Date :=
  let fullYear := if 0 ≤ year ∧ year ≤ 99 then 1900 + year else year
  timeClip (makeDay fullYear month day * msPerDay + makeTime hour minute second 0)

namespace TimeValue

/-- The calendar date in UTC. -/
def date (t : TimeValue) : Calendar.Date := Calendar.dateOf (t.ms / msPerDay)

/-- The milliseconds since midnight in UTC. -/
def msOfDay (t : TimeValue) : ℕ := (t.ms % msPerDay).toNat

def getUTCFullYear (t : TimeValue) : ℤ := t.date.year

def getUTCMonth (t : TimeValue) : ℕ := t.date.month

def getUTCDate (t : TimeValue) : ℕ := t.date.day

end TimeValue

/-! ## Writing a date -/

/-- `date.toISOString()` -/
def TimeValue.toISOString (t : TimeValue) : String :=
  String.ofList (dateText t.date ++ 'T' :: (clockText (t.msOfDay / 1000) ++
    '.' :: (Decimal.padded 3 (t.msOfDay % 1000) ++ ['Z'])))

/-! ## Reading a date -/

/-- How a date-time text fixes its zone. -/
inductive Zone where
  | utc
  | server
  | offset (minutes : ℤ)

def isoYear : Reader ℤ := do
  if ← skip '+' then
    return (← number 6 : ℕ)
  else if ← skip '-' then
    let year ← number 6
    guard (year ≠ 0)
    return -(year : ℤ)
  else return (← number 4 : ℕ)

def isoMonthDay : Reader (ℕ × ℕ) := do
  if ← skip '-' then
    let month ← numberIn 1 12
    if ← skip '-' then
      return (month, ← numberIn 1 31)
    else return (month, 1)
  else return (1, 1)

/-- The decimals of the seconds, of any number. -/
def isoFraction : Reader (List Char) := do
  if ← skip '.' then
    let fraction ← digits
    guard (fraction ≠ [])
    return fraction
  else return []

/-- The seconds and their decimals after `HH:MM`. -/
def isoSeconds : Reader (ℕ × List Char) := do
  if ← skip ':' then
    let second ← numberIn 0 59
    return (second, ← isoFraction)
  else return (0, [])

/-- The time of day in milliseconds; the hour 24 only exists as midnight. -/
def isoTime : Reader ℤ := do
  let hour ← numberIn 0 24
  expect ':'
  let minute ← numberIn 0 59
  let (second, fraction) ← isoSeconds
  guard (hour = 24 → minute = 0 ∧ second = 0 ∧ Decimal.value fraction = 0)
  return makeTime hour minute second (Decimal.value ((fraction ++ ['0', '0', '0']).take 3))

def isoZone : Reader Zone := do
  if ← skip 'Z' then return .utc
  else if ← skip '+' then
    let hour ← numberIn 0 23
    expect ':'
    return .offset (hour * 60 + (← numberIn 0 59))
  else if ← skip '-' then
    let hour ← numberIn 0 23
    expect ':'
    return .offset (-(hour * 60 + (← numberIn 0 59)))
  else return .server

/-- The wall-clock time in milliseconds, and its zone. -/
def isoDateTime : Reader (ℤ × Zone) := do
  let year ← isoYear
  let (month, day) ← isoMonthDay
  let midnight := makeDay year (month - 1) day * msPerDay
  if ← skip 'T' then
    let time ← isoTime
    return (midnight + time, ← isoZone)
  else return (midnight, .utc)

/-- What the server and its engine decide about dates: the offset of local time at an
instant and at a wall-clock time, in milliseconds, and the reading of a text that is not
in the date-time string format. -/
structure DateReader where
  zoneOffset : ℤ → ℤ
  localOffset : ℤ → ℤ
  legacy : String → Date
  /-- Since 1970 the local time of a zone is UTC or at least two minutes away from it. -/
  coarse : ∀ wall, 0 ≤ wall → localOffset wall ≠ 0 → 120000 ≤ |localOffset wall|

/-- A server in UTC, whose engine reads no other texts. -/
def utcReader : DateReader where
  zoneOffset := fun _ => 0
  localOffset := fun _ => 0
  legacy := fun _ => none
  coarse := fun _ _ other => absurd rfl other

/-- The instant of a wall-clock time. -/
def Zone.toUTC (reader : DateReader) (wall : ℤ) : Zone → ℤ
  | utc => wall
  | server => wall - reader.localOffset wall
  | offset minutes => wall - minutes * 60000

/-- `new Date(text)` -/
def newDate (reader : DateReader) (text : String) : Date :=
  match isoDateTime text.toList with
  | some ((wall, zone), []) => timeClip (zone.toUTC reader wall)
  | _ => reader.legacy text

/-! ## What is written is read back -/

section RoundTrip

variable {rest : List Char}

theorem isoYear_yearText {year : ℤ} (fits : year.natAbs < 10 ^ 6) :
    isoYear (yearText year ++ rest) = some (year, rest) := by
  unfold isoYear yearText
  split
  next plain =>
    have four : year.natAbs < 10 ^ 4 := by omega
    have cast : (year.natAbs : ℤ) = year := by omega
    simp only [reader_bind, skip_padded (by decide : Char.isDigit '+' = false),
      skip_padded (by decide : Char.isDigit '-' = false), Option.bind_some, Bool.false_eq_true,
      ↓reduceIte, number_padded four, reader_pure, cast]
  next expanded =>
    by_cases negative : year < 0
    · have nonzero : year.natAbs ≠ 0 := by omega
      have cast : -(year.natAbs : ℤ) = year := by omega
      simp only [negative, ↓reduceIte, List.cons_append, reader_bind,
        skip_ne (by decide : '-' ≠ '+'), skip_self, Option.bind_some, Bool.false_eq_true,
        number_padded fits, reader_guard nonzero, reader_pure, cast]
    · have cast : (year.natAbs : ℤ) = year := by omega
      simp only [negative, ↓reduceIte, List.cons_append, reader_bind, skip_self, Option.bind_some,
        number_padded fits, reader_pure, cast]

theorem isoMonthDay_text {month day : ℕ} (monthLow : 1 ≤ month) (monthHigh : month ≤ 12)
    (dayLow : 1 ≤ day) (dayHigh : day ≤ 31) :
    isoMonthDay ('-' :: (Decimal.padded 2 month ++ '-' :: (Decimal.padded 2 day ++ rest))) =
      some ((month, day), rest) := by
  simp only [isoMonthDay, reader_bind, skip_self, Option.bind_some, ↓reduceIte,
    numberIn_padded monthLow monthHigh (by omega), numberIn_padded dayLow dayHigh (by omega),
    reader_pure]

/-- `HH:MM:SS` at any time of day, with what follows it. -/
theorem isoTime_clockText {seconds : ℕ} (inDay : seconds < 86400) {fraction after : List Char}
    (reads : isoFraction rest = some (fraction, after)) :
    isoTime (clockText seconds ++ rest) =
      some ((seconds : ℤ) * 1000 + Decimal.value ((fraction ++ ['0', '0', '0']).take 3),
        after) := by
  have notMidnight : seconds / 3600 = 24 →
      seconds / 60 % 60 = 0 ∧ seconds % 60 = 0 ∧ Decimal.value fraction = 0 := by omega
  have time : ∀ ms, makeTime (seconds / 3600 : ℕ) (seconds / 60 % 60 : ℕ) (seconds % 60 : ℕ) ms =
      seconds * 1000 + ms := by
    intro ms
    unfold makeTime
    omega
  have inSeconds : isoSeconds (':' :: (Decimal.padded 2 (seconds % 60) ++ rest)) =
      some ((seconds % 60, fraction), after) := by
    simp only [isoSeconds, reader_bind, skip_self, Option.bind_some, ↓reduceIte,
      numberIn_padded (Nat.zero_le _) (by omega : seconds % 60 ≤ 59) (by omega), reads, reader_pure]
  simp only [isoTime, clockText, List.append_assoc, List.cons_append, reader_bind,
    numberIn_padded (Nat.zero_le _) (by omega : seconds / 3600 ≤ 24) (by omega), Option.bind_some,
    expect_self, numberIn_padded (Nat.zero_le _) (by omega : seconds / 60 % 60 ≤ 59) (by omega),
    inSeconds, reader_guard notMidnight, reader_pure, time]

theorem isoFraction_padded {ms : ℕ} :
    isoFraction ('.' :: (Decimal.padded 3 ms ++ ['Z'])) = some (Decimal.padded 3 ms, ['Z']) := by
  obtain ⟨taken, dropped⟩ := @Decimal.takeWhile_isDigit_append (Decimal.padded 3 ms) ['Z']
    (fun c member => Decimal.isDigit_of_mem_padded member) fun c head => by cases head; rfl
  have nonempty : Decimal.padded 3 ms ≠ [] := by
    rw [← List.length_pos_iff, Decimal.length_padded]
    decide
  simp only [isoFraction, reader_bind, skip_self, Option.bind_some, ↓reduceIte, digits, taken,
    dropped, reader_guard nonempty, reader_pure]

theorem makeDay_date {date : Calendar.Date} (valid : date.Valid) :
    makeDay date.year date.month date.day = Calendar.dayOf date := by
  have month := valid.month_lt
  have zero : (date.month : ℤ) / 12 = 0 := by omega
  have self : ((date.month : ℤ) % 12).toNat = date.month := by omega
  rw [makeDay, zero, self, add_zero, Calendar.dayOf]

/-- A date and a time of day are read as one wall-clock time. -/
theorem isoDateTime_text {date : Calendar.Date} (valid : date.Valid)
    (year : date.year.natAbs < 10 ^ 6) {seconds : ℕ} (inDay : seconds < 86400)
    {fraction : List Char}
    {ms : ℕ} {after : List Char} (reads : isoFraction rest = some (fraction, after))
    (value : Decimal.value ((fraction ++ ['0', '0', '0']).take 3) = ms) :
    isoDateTime (dateText date ++ 'T' :: (clockText seconds ++ rest)) =
      (isoZone after).bind fun read =>
        some ((Calendar.dayOf date * msPerDay + (seconds * 1000 + ms), read.1), read.2) := by
  have positive := valid.1
  have month := valid.month_lt
  have cast : ((date.month + 1 : ℕ) - 1 : ℤ) = date.month := by omega
  have day := makeDay_date valid
  rw [← cast] at day
  simp only [isoDateTime, dateText, List.append_assoc, List.cons_append, reader_bind,
    isoYear_yearText year, Option.bind_some,
    isoMonthDay_text (Nat.succ_pos date.month) (by omega : date.month + 1 ≤ 12) positive
      valid.day_le, skip_self, ↓reduceIte,
    isoTime_clockText inDay reads, value, reader_pure, day]

end RoundTrip

theorem natAbs_year_lt (t : TimeValue) : t.date.year.natAbs < 10 ^ 6 := by
  have range := abs_le.mp t.inRange
  obtain ⟨lower, upper⟩ := Calendar.yearOf_bounds (t.ms / msPerDay)
  change (Calendar.yearOf (t.ms / msPerDay)).natAbs < 10 ^ 6
  unfold Calendar.yearStart msPerDay at *
  omega

theorem msOfDay_lt (t : TimeValue) : t.msOfDay < 86400000 := by
  unfold TimeValue.msOfDay msPerDay
  omega

theorem day_msOfDay (t : TimeValue) : t.ms / msPerDay * msPerDay + t.msOfDay = t.ms := by
  unfold TimeValue.msOfDay msPerDay
  omega

/-- The text of a date is read back as the same date, in any time zone. -/
theorem newDate_toISOString (reader : DateReader) (t : TimeValue) :
    newDate reader t.toISOString = some t := by
  have seconds : t.msOfDay / 1000 < 86400 := by
    have := msOfDay_lt t
    omega
  have whole : (((t.msOfDay / 1000 : ℕ) : ℤ) * 1000 + (t.msOfDay % 1000 : ℕ)) = t.msOfDay := by
    omega
  have value : Decimal.value ((Decimal.padded 3 (t.msOfDay % 1000) ++ ['0', '0', '0']).take 3) =
      t.msOfDay % 1000 := by
    rw [List.take_append_of_le_length (by rw [Decimal.length_padded]),
      List.take_of_length_le (by rw [Decimal.length_padded]),
      Decimal.value_padded_of_lt (by omega)]
  have zone : isoZone ['Z'] = some (.utc, []) := rfl
  have text := isoDateTime_text (Calendar.dateOf_valid (t.ms / msPerDay)) (natAbs_year_lt t) seconds
    isoFraction_padded value
  simp only [zone, Option.bind_some, whole, Calendar.dayOf_dateOf, day_msOfDay] at text
  simp only [newDate, TimeValue.toISOString, String.toList_ofList, TimeValue.date, text, Zone.toUTC,
    timeClip_ms]

/-- The text of a date denotes it and no other. -/
theorem denotes_toISOString {zoneOffset : ℤ → ℤ} {t : TimeValue} {ms : ℤ} :
    Iso8601.Denotes zoneOffset t.toISOString ms ↔ ms = t.ms := by
  have seconds : t.msOfDay / 1000 < 86400 := by
    have := msOfDay_lt t
    omega
  have whole : t.msOfDay / 1000 * 1000 + t.msOfDay % 1000 = t.msOfDay := Nat.div_add_mod' _ _
  have read := Iso8601.read_utcText (Calendar.dateOf_valid (t.ms / msPerDay)) (natAbs_year_lt t)
    seconds (Nat.mod_lt t.msOfDay (by decide : 0 < 10 ^ 3))
  have day := day_msOfDay t
  rw [msPerDay] at day
  simp only [Nat.reducePow, whole, Calendar.dayOf_dateOf, msPerDay, day] at read
  rw [Iso8601.Denotes, TimeValue.toISOString, String.toList_ofList, TimeValue.date, msPerDay, read]
  refine ⟨?_, fun same => ⟨_, rfl, same⟩⟩
  rintro ⟨moment, ⟨⟩, here⟩
  exact here

/-- A date is written with digits, signs and the marks of its parts only. -/
theorem not_mem_toISOString (t : TimeValue) {c : Char} (notDigit : c.isDigit = false)
    (noMark : c ∉ ['-', '+', 'T', ':', '.', 'Z']) : c ∉ t.toISOString.toList := by
  have padded : ∀ width n, c ∉ Decimal.padded width n := by
    intro width n member
    rw [Decimal.isDigit_of_mem_padded member] at notDigit
    cases notDigit
  simp only [List.mem_cons, List.not_mem_nil, or_false, not_or] at noMark
  obtain ⟨minus, plus, t, colon, point, zulu⟩ := noMark
  have year : ∀ year, c ∉ yearText year := by
    intro year
    unfold yearText
    split
    · exact padded _ _
    · rw [List.mem_cons, not_or]
      refine ⟨?_, padded _ _⟩
      split
      · exact minus
      · exact plus
  simp only [TimeValue.toISOString, String.toList_ofList, dateText, clockText, List.mem_append,
    List.mem_cons, List.not_mem_nil, or_false, not_or]
  exact ⟨⟨year _, minus, padded _ _, minus, padded _ _⟩, t,
    ⟨padded _ _, colon, padded _ _, colon, padded _ _⟩, point, padded _ _, zulu⟩

theorem toISOString_injective : Function.Injective TimeValue.toISOString := by
  intro first second same
  have read := newDate_toISOString utcReader first
  rw [same, newDate_toISOString] at read
  exact (Option.some.inj read).symm

/-- A date-time without a zone designator is read in the server's local time. -/
theorem newDate_local (reader : DateReader) {date : Calendar.Date} (valid : date.Valid)
    (year : date.year.natAbs < 10 ^ 6) {seconds : ℕ} (inDay : seconds < 86400) :
    let wall := Calendar.dayOf date * msPerDay + seconds * 1000
    newDate reader (String.ofList (dateText date ++ 'T' :: clockText seconds)) =
      timeClip (wall - reader.localOffset wall) := by
  have reads : isoFraction [] = some ([], []) := rfl
  have zone : isoZone [] = some (.server, []) := rfl
  have text := isoDateTime_text valid year inDay reads (by decide : _ = 0)
  simp only [List.append_nil, zone, Option.bind_some, Nat.cast_zero, add_zero] at text
  simp only [newDate, String.toList_ofList, text, Zone.toUTC]

/-- A date without a time is read as its midnight in UTC. -/
theorem newDate_dateText (reader : DateReader) {date : Calendar.Date} (valid : date.Valid)
    (year : date.year.natAbs < 10 ^ 6) :
    newDate reader (String.ofList (dateText date)) = timeClip (Calendar.dayOf date * msPerDay) := by
  have positive := valid.1
  have month := valid.month_lt
  have cast : ((date.month + 1 : ℕ) - 1 : ℤ) = date.month := by omega
  have day := makeDay_date valid
  rw [← cast] at day
  have monthDay := @isoMonthDay_text [] (date.month + 1) date.day (Nat.succ_pos _)
    (by omega) positive valid.day_le
  rw [List.append_nil] at monthDay
  have text : isoDateTime (dateText date) = some ((Calendar.dayOf date * msPerDay, .utc), []) := by
    simp only [isoDateTime, dateText, reader_bind, isoYear_yearText year, Option.bind_some,
      monthDay, skip, Bool.false_eq_true, ↓reduceIte, reader_pure, day]
  simp only [newDate, String.toList_ofList, text, Zone.toUTC]

end BirrTrack.Js
