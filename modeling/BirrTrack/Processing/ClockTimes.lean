import BirrTrack.Processing.DateRenderings

/-! # Times of day

The same date and time of day in each of the four formats: those with a month's name
drop the time (`formatsAgree_iff`). And ISO date-times with a zone designator: the
zone's offset is dropped, and seconds are dropped before a `Z` (`keepsInstant_iff`).
-/

namespace BirrTrack.Processing

open Js Backtracking Pattern

variable {date : Calendar.Date} {seconds : ℕ}

/-- The timestamp of an instant in seconds since the epoch. -/
def Denotes (timestamp : String) (instant : ℤ) : Prop :=
  ∃ t : TimeValue, t.ms = instant * 1000 ∧ t.toISOString = timestamp

theorem denotes_isoText_iff (valid : date.Valid) (low : 1970 ≤ date.year)
    (high : date.year ≤ 2100) (inDay : seconds < 86400) {instant : ℤ} :
    Denotes (String.ofList (isoText date seconds)) instant ↔
      instant = Calendar.dayOf date * 86400 + seconds := by
  obtain ⟨lower, upper⟩ := wallTime_bounds valid low high inDay
  let t : TimeValue := ⟨wallTime date seconds, abs_le.mpr ⟨by omega, by omega⟩⟩
  have text : t.toISOString = String.ofList (isoText date seconds) :=
    toISOString_wallTime valid inDay rfl
  have ms : t.ms = (Calendar.dayOf date * 86400 + seconds) * 1000 := by
    change wallTime date seconds = _
    unfold wallTime msPerDay
    omega
  refine ⟨?_, ?_⟩
  · intro denotes
    obtain ⟨t', ms', same⟩ := denotes
    obtain rfl := toISOString_injective (same.trans text.symm)
    omega
  · rintro rfl
    exact ⟨t, ms, text⟩

/-! ## One time in four formats -/

/-- `HH:MM:SS` after a date. -/
def timed (word : List Char) (seconds : ℕ) : List Char := word ++ ' ' :: Calendar.clockText seconds

/-- The four printed forms of a date and a time of day. -/
inductive PrintedTimes (date : Calendar.Date) (seconds : ℕ) : List (List Char) → Prop where
  | texts {name name' day day' day'' month year : List Char} (isMonth : NamesMonth name date.month)
      (isMonth' : NamesMonth name' date.month) (isDay : PrintsNumber day date.day)
      (isDay' : PrintsNumber day' date.day) (isDay'' : PrintsNumber day'' date.day)
      (isNumber : PrintsNumber month (date.month + 1)) (isYear : PrintsYear year date.year) :
      PrintedTimes date seconds [
        timed (day ++ '-' :: (name ++ '-' :: year)) seconds,
        timed (name' ++ ' ' :: (day' ++ ',' :: ' ' :: year)) seconds,
        timed (Calendar.dateText date) seconds,
        timed (day'' ++ '/' :: (month ++ '/' :: year)) seconds]

/-- All texts are read as one instant. -/
def FormatsAgree (texts : List (List Char)) : Prop :=
  ∃ timestamp, ∀ text ∈ texts, extractTimestampFromText text = some timestamp

theorem mem_clockText {c : Char} (member : c ∈ Calendar.clockText seconds) :
    c.isDigit = true ∨ c = ':' := by
  have digit : ∀ {width n : ℕ}, c ∈ Decimal.padded width n → c.isDigit = true :=
    Decimal.isDigit_of_mem_padded
  simp only [Calendar.clockText, List.mem_append, List.mem_cons] at member
  rcases member with hour | colon | minute | colon | second
  · exact Or.inl (digit hour)
  · exact Or.inr colon
  · exact Or.inl (digit minute)
  · exact Or.inr colon
  · exact Or.inl (digit second)

theorem not_isLetter_of_mem_clock {c : Char} (member : c ∈ Calendar.clockText seconds) :
    ¬ IsLetter c := by
  intro letter
  rcases mem_clockText member with digit | rfl
  · rw [isDigit_of_isLetter letter] at digit
    cases digit
  · cases letter

theorem isDelimiter_of_mem_clock {c : Char} (member : c ∈ ' ' :: Calendar.clockText seconds) :
    isDelimiter c = false := by
  rcases List.mem_cons.mp member with rfl | member
  · decide
  · rcases mem_clockText member with digit | rfl
    · exact isDelimiter_of_isDigit digit
    · decide

section Formats

variable {name day month year : List Char} (valid : date.Valid) (low : 1970 ≤ date.year)
  (high : date.year ≤ 2100) (inDay : seconds < 86400)

include valid low high

/-- The day-month-name format has no time of day. -/
theorem extract_timed_dayMonthName {c d : Char} (isDay : PrintsNumber day date.day)
    (marked : isDelimiter c = true) (isMonth : NamesMonth name date.month)
    (marked' : isDelimiter d = true) (isYear : PrintsYear year date.year) :
    extractTimestampFromText (timed (day ++ c :: (name ++ d :: year)) seconds) =
      some (String.ofList (isoText date 0)) := by
  have first := @firstDate_of_name [] (' ' :: Calendar.clockText seconds) _ _ _ (Or.inl rfl)
    (.dayMonthNameYear isDay.1 marked isMonth marked' isYear.1) clear_nil (clear_cons.mpr rfl)
    fun _ _ _ _ _ => Nat.zero_le _
  rw [extractTimestampFromText_eq, timed]
  rw [List.nil_append] at first
  rw [first.tryParse_eq, timestamp_of_date valid low high isYear.2 rfl (by rw [isDay.2]),
    Option.some_or]

/-- Nor has the month-name-day format. -/
theorem extract_timed_monthName (isMonth : NamesMonth name date.month)
    (isDay : PrintsNumber day date.day) (isYear : PrintsYear year date.year) :
    extractTimestampFromText (timed (name ++ ' ' :: (day ++ ',' :: ' ' :: year)) seconds) =
      some (String.ofList (isoText date 0)) := by
  have isDate : DateText .monthNameDayYear (name ++ ' ' :: (day ++ ',' :: ' ' :: year)) _ :=
    @DateText.monthNameDayYear name [] [' '] day [] [',', ' '] year date.month isMonth
      (Or.inl rfl) (List.cons_ne_nil _ _) (by decide) isDay.1 (Or.inl rfl) (List.cons_ne_nil _ _)
      (by decide) isYear.1
  have first := @firstDate_of_name [] (' ' :: Calendar.clockText seconds) _ _ _ (Or.inr rfl)
    isDate clear_nil (clear_cons.mpr rfl) fun _ _ _ _ _ => Nat.zero_le _
  have absent : DateFormat.dayMonthNameYear.tryParse
      (timed (name ++ ' ' :: (day ++ ',' :: ' ' :: year)) seconds) = none := by
    have absent := @dayMonthNameYear_absent [] []
      (timed (name ++ ' ' :: (day ++ ',' :: ' ' :: year)) seconds)
      (fun _ impossible => nomatch impossible) (fun _ impossible => nomatch impossible)
    rw [List.nil_append, List.append_nil] at absent
    refine absent (Or.inr ?_)
    intro c member
    simp only [timed, List.mem_append, List.mem_cons] at member
    rcases member with (letter | rfl | digit | rfl | rfl | digit) | clock
    · exact isDelimiter_of_isLetter (isMonth.isLetter c letter)
    · decide
    · exact isDelimiter_of_isDigit (isDay.1.2.2 c digit)
    · decide
    · decide
    · exact isDelimiter_of_isDigit (isYear.1.2.2 c digit)
    · exact isDelimiter_of_mem_clock (List.mem_cons.mpr clock)
  rw [extractTimestampFromText_eq, absent, timed]
  rw [List.nil_append] at first
  rw [first.tryParse_eq, timestamp_of_date valid low high isYear.2 rfl (by rw [isDay.2]),
    Option.none_or, Option.some_or]

include inDay

theorem extract_timed_dateText :
    extractTimestampFromText (timed (Calendar.dateText date) seconds) =
      some (String.ofList (isoText date seconds)) := by
  obtain ⟨t, ms, extracted⟩ := extractTimestampFromText_wallText valid low high inDay
  rw [← toISOString_wallTime valid inDay ms]
  exact extracted

theorem extract_timed_dayMonthYear (isDay : PrintsNumber day date.day)
    (isMonth : PrintsNumber month (date.month + 1)) (isYear : PrintsYear year date.year) :
    extractTimestampFromText (timed (day ++ '/' :: (month ++ '/' :: year)) seconds) =
      some (String.ofList (isoText date seconds)) := by
  have slash : isDelimiter '/' = true := rfl
  have text : timed (day ++ '/' :: (month ++ '/' :: year)) seconds =
      day ++ '/' :: (month ++ '/' :: (year ++ ' ' :: Calendar.clockText seconds)) := by
    simp only [timed, List.append_assoc, List.cons_append]
  obtain ⟨noName, noName'⟩ :=
    @tryParse_of_few_letters (timed (day ++ '/' :: (month ++ '/' :: year)) seconds) (by
      intro c member letter
      refine absurd letter ?_
      rcases List.mem_append.mp member with number | clock
      · exact stops_of_numbers isDay.1 slash isMonth.1 slash isYear.1 c number
      · rcases List.mem_cons.mp clock with rfl | clock
        · exact fun impossible => nomatch impossible
        · exact not_isLetter_of_mem_clock clock)
  have noYear : DateFormat.yearMonthDay.tryParse
      (timed (day ++ '/' :: (month ++ '/' :: year)) seconds) = none := by
    apply tryParse_eq_none_of_absent
    intro front word back fields stands
    refine stands.isDate.not_inside isDay.1 slash isMonth.1 slash ?_
      (@getLast?_of_clear [] front stands.clearBefore) (text.symm.trans stands.split)
    intro c member
    rcases List.mem_append.mp member with digit | clock
    · exact isDelimiter_of_isDigit (isYear.1.2.2 c digit)
    · exact isDelimiter_of_mem_clock clock
  have first := @firstDate_numericDelimitedDate [] _ day month year '/' '/' _
    (fun _ absent => nomatch absent) clear_nil isDay.1 slash isMonth.1 slash isYear.1
    (stops_cons (by decide))
    (@longestTime_seconds [] [' '] (Decimal.padded 2 (seconds / 3600))
      (Decimal.padded 2 (seconds / 60 % 60)) (Decimal.padded 2 (seconds % 60)) isSpace
      (fun _ => isDigit_of_isSpace) (List.cons_ne_nil _ _) (by decide) (digits_twoDigits _)
      (digits_padded 2 _) (digits_padded 2 _) clear_nil)
  have monthLe := valid.month_lt
  have number := isMonth.2
  have monthIndex : (Decimal.value month : ℤ) - 1 = date.month := by omega
  rw [dayAndMonthIndex_of_month (by omega), clock_padded inDay, isYear.2, isDay.2, monthIndex]
    at first
  have read := first.tryParse_eq.trans (timestamp_printedFields valid low high inDay)
  rw [List.append_nil, List.nil_append] at read
  rw [extractTimestampFromText_eq, noName, noName', noYear, text, Option.none_or, Option.none_or,
    Option.none_or]
  exact read

end Formats

/-- The four formats agree at midnight only. -/
theorem formatsAgree_iff (valid : date.Valid) (low : 1970 ≤ date.year) (high : date.year ≤ 2100)
    (inDay : seconds < 86400) {texts : List (List Char)}
    (printed : PrintedTimes date seconds texts) : FormatsAgree texts ↔ seconds = 0 := by
  obtain ⟨isMonth, isMonth', isDay, isDay', isDay'', isNumber, isYear⟩ := printed
  have dash : isDelimiter '-' = true := rfl
  unfold FormatsAgree
  simp only [List.forall_mem_cons, List.not_mem_nil, false_implies, implies_true, and_true,
    extract_timed_dayMonthName valid low high isDay dash isMonth dash isYear,
    extract_timed_monthName valid low high isMonth' isDay' isYear,
    extract_timed_dateText valid low high inDay,
    extract_timed_dayMonthYear valid low high inDay isDay'' isNumber isYear]
  refine ⟨?_, ?_⟩
  · intro agree
    obtain ⟨timestamp, midnight, -, timed, -⟩ := agree
    have denotes := (denotes_isoText_iff valid low high inDay).mpr rfl
    rw [Option.some.inj (timed.trans midnight.symm),
      denotes_isoText_iff valid low high (by decide)] at denotes
    omega
  · rintro rfl
    exact ⟨_, rfl, rfl, rfl, rfl⟩

theorem printedTimes_april : PrintedTimes ⟨2026, 3, 8⟩ 52245 ["08-Apr-2026 14:30:45".toList,
    "April 8, 2026 14:30:45".toList, "2026-04-08 14:30:45".toList, "8/4/2026 14:30:45".toList] :=
  @PrintedTimes.texts ⟨2026, 3, 8⟩ 52245 "Apr".toList "April".toList "08".toList "8".toList
    "8".toList "4".toList "2026".toList ⟨_, rfl, by decide⟩ ⟨_, rfl, by decide⟩
    ⟨by decide, by decide⟩ ⟨by decide, by decide⟩ ⟨by decide, by decide⟩ ⟨by decide, by decide⟩
    ⟨by decide, by decide⟩

theorem formatsAgree_april_iff :
    FormatsAgree ["08-Apr-2026 14:30:45".toList, "April 8, 2026 14:30:45".toList,
      "2026-04-08 14:30:45".toList, "8/4/2026 14:30:45".toList] ↔ 52245 = 0 :=
  formatsAgree_iff (by decide) (by decide) (by decide) (by decide) printedTimes_april

/-- A payment at half past two is one of midnight in the formats with a month's name. -/
theorem not_formatsAgree :
    PrintedTimes ⟨2026, 3, 8⟩ 52245 ["08-Apr-2026 14:30:45".toList,
      "April 8, 2026 14:30:45".toList, "2026-04-08 14:30:45".toList,
      "8/4/2026 14:30:45".toList] ∧
    ¬ FormatsAgree ["08-Apr-2026 14:30:45".toList, "April 8, 2026 14:30:45".toList,
      "2026-04-08 14:30:45".toList, "8/4/2026 14:30:45".toList] := by
  refine ⟨printedTimes_april, ?_⟩
  intro agree
  obtain ⟨timestamp, all⟩ := agree
  have midnight : extractTimestampFromText "08-Apr-2026 14:30:45".toList =
      some "2026-04-08T00:00:00.000Z" := by decide
  have afternoon : extractTimestampFromText "2026-04-08 14:30:45".toList =
      some "2026-04-08T14:30:45.000Z" := by decide
  have first := all "08-Apr-2026 14:30:45".toList (by simp)
  have third := all "2026-04-08 14:30:45".toList (by simp)
  have same := (midnight.symm.trans first).trans (third.symm.trans afternoon)
  exact absurd same (by decide)

/-! ## ISO date-times with a zone designator -/

/-- `:SS[.fff]`, or nothing. -/
inductive SecondsPart where
  | none
  | whole (second : ℕ)
  | fraction (second : ℕ) (digits : List Char)

/-- `Z`, or `+HH:MM` or `-HH:MM`. -/
inductive Designator where
  | utc
  | offset (behind : Bool) (hours minutes : ℕ)

/-- A date-time that ISO 8601 allows; the end of a day may be its hour 24. -/
structure ZonedDateTime where
  date : Calendar.Date
  hour : ℕ
  minute : ℕ
  seconds : SecondsPart
  zone : Designator

namespace SecondsPart

def text : SecondsPart → List Char
  | none => []
  | whole second => ':' :: Decimal.padded 2 second
  | fraction second digits => ':' :: (Decimal.padded 2 second ++ '.' :: digits)

def second : SecondsPart → ℕ
  | none => 0
  | whole second => second
  | fraction second _ => second

def Valid : SecondsPart → Prop
  | none => True
  | whole second => second ≤ 59
  | fraction second digits => second ≤ 59 ∧ digits ≠ [] ∧ ∀ c ∈ digits, c.isDigit = true

/-- The start of a minute. -/
def Zero : SecondsPart → Prop
  | none => True
  | whole second => second = 0
  | fraction second digits => second = 0 ∧ ∀ c ∈ digits, c = '0'

end SecondsPart

namespace Designator

def text : Designator → List Char
  | utc => ['Z']
  | offset behind hours minutes =>
      (if behind then '-' else '+') :: (Decimal.padded 2 hours ++ ':' :: Decimal.padded 2 minutes)

/-- The seconds that local time is ahead of UTC. -/
def ahead : Designator → ℤ
  | utc => 0
  | offset behind hours minutes => (if behind then -1 else 1) * ((hours * 60 + minutes) * 60)

def Valid : Designator → Prop
  | utc => True
  | offset _ hours minutes => hours ≤ 23 ∧ minutes ≤ 59

end Designator

namespace ZonedDateTime

def text (t : ZonedDateTime) : List Char :=
  Calendar.dateText t.date ++ 'T' :: (Decimal.padded 2 t.hour ++ ':' ::
    (Decimal.padded 2 t.minute ++ (t.seconds.text ++ t.zone.text)))

structure Valid (t : ZonedDateTime) : Prop where
  date : t.date.Valid
  low : 1970 ≤ t.date.year
  high : t.date.year ≤ 2100
  hour : t.hour ≤ 23 ∨ t.hour = 24 ∧ t.minute = 0 ∧ t.seconds.Zero
  minute : t.minute ≤ 59
  seconds : t.seconds.Valid
  zone : t.zone.Valid

/-- The instant in whole seconds since the epoch. -/
def instant (t : ZonedDateTime) : ℤ :=
  Calendar.dayOf t.date * 86400 + ((t.hour * 60 + t.minute) * 60 + t.seconds.second) - t.zone.ahead

/-- What is read in the text, if anything, is its instant. -/
def KeepsInstant (t : ZonedDateTime) : Prop :=
  ∀ timestamp, extractTimestampFromText t.text = some timestamp → Denotes timestamp t.instant

/-- Nothing is lost: no seconds directly before a `Z`, no offset, or a time that is not read. -/
def Kept (t : ZonedDateTime) : Prop :=
  t.hour = 24 ∨ match t.zone with
    | .utc => ∀ second, t.seconds = .whole second → second = 0
    | .offset _ hours minutes => hours = 0 ∧ minutes = 0

end ZonedDateTime

section Numeric

variable {tokens : List (List Char × Char)} {last text : List Char}

/-- The run that begins a joined text. -/
def firstRun : List (List Char × Char) → List Char → List Char
  | [], last => last
  | (run, _) :: _, _ => run

theorem joined_cons {run rest : List Char} {mark : Char} {least most : ℕ}
    (runs : Tokens Char.isDigit tokens) (all : ∀ c ∈ last, c.isDigit = true)
    (digits : Digits least most run) (notDigit : mark.isDigit = false)
    (same : joined tokens last = run ++ mark :: rest) :
    ∃ tokens', tokens = (run, mark) :: tokens' ∧ joined tokens' last = rest := by
  cases tokens with
  | nil =>
      have digit := all mark (by rw [show last = _ from same]; simp)
      rw [notDigit] at digit
      cases digit
  | cons token tokens =>
      obtain ⟨ofRun, notMark⟩ := runs token List.mem_cons_self
      obtain ⟨rfl, marks⟩ :=
        split_unique same ofRun digits.2.2 (stops_cons notMark) (stops_cons notDigit)
      obtain ⟨rfl, rests⟩ := List.cons.inj marks
      exact ⟨tokens, rfl, rests⟩

theorem joined_split {run : List Char} {rest : List Char} {least most : ℕ}
    (runs : Tokens Char.isDigit tokens) (all : ∀ c ∈ last, c.isDigit = true)
    (digits : Digits least most run) (stops : ∀ c ∈ rest.head?, c.isDigit = false)
    (same : joined tokens last = run ++ rest) : firstRun tokens last = run := by
  cases tokens with
  | nil =>
      have ends := @split_unique Char.isDigit last [] run rest (by rw [List.append_nil]; exact same)
        all digits.2.2 (fun _ absent => nomatch absent) stops
      exact ends.1
  | cons token tokens =>
      obtain ⟨ofRun, notMark⟩ := runs token List.mem_cons_self
      exact (split_unique same ofRun digits.2.2 (stops_cons notMark) stops).1

/-- A numeric date takes three runs with delimiters after the first two. -/
theorem DateText.exists_tokens {word back : List Char} {fields : DateFields}
    (isDate : DateText .numericDelimitedDate word fields) (clearAfter : Clear back)
    (runs : Tokens Char.isDigit tokens) (all : ∀ c ∈ last, c.isDigit = true)
    (same : word ++ back = joined tokens last) :
    ∃ a c b d rest, tokens = (a, c) :: (b, d) :: rest ∧ a.length ≤ 2 ∧ isDelimiter c = true ∧
      isDelimiter d = true ∧ (firstRun rest last).length = 4 := by
  cases isDate with
  | @numericDelimitedDate a b year time c d clock isFirst marked isSecond marked' isYear isTime =>
      simp only [List.append_assoc, List.cons_append] at same
      obtain ⟨tokens, rfl, seconds⟩ :=
        joined_cons runs all isFirst (isDigit_of_isDelimiter marked) same.symm
      have later : Tokens Char.isDigit tokens :=
        fun token member => runs token (List.mem_cons_of_mem _ member)
      obtain ⟨tokens, rfl, thirds⟩ :=
        joined_cons later all isSecond (isDigit_of_isDelimiter marked') seconds
      have stops : ∀ c ∈ (time ++ back).head?, c.isDigit = false := by
        have timed := isTime.stops fun _ => isDigit_of_isSpace
        cases time with
        | nil => exact stops_of_clear clearAfter
        | cons x time => exact timed
      have run := joined_split (fun token member => later token (List.mem_cons_of_mem _ member)) all
        isYear stops thirds
      refine ⟨a, c, b, d, tokens, rfl, isFirst.2.1, marked, marked', ?_⟩
      rw [run]
      exact Nat.le_antisymm isYear.2.1 isYear.1

/-- There is no numeric date where no run but the last ones is followed by two delimiters and a
year. -/
theorem numericDelimitedDate_absent (runs : Tokens Char.isDigit tokens)
    (all : ∀ c ∈ last, c.isDigit = true)
    (none : ∀ a c b d rest, (a, c) :: (b, d) :: rest <:+ tokens → a.length ≤ 2 →
      isDelimiter c = true → isDelimiter d = true → (firstRun rest last).length ≠ 4) :
    DateFormat.numericDelimitedDate.tryParse (joined tokens last) = .none := by
  apply tryParse_eq_none_of_absent
  intro front word back fields stands
  obtain ⟨split, isDate, clearBefore, clearAfter⟩ := stands
  obtain ⟨c, tail, rfl, isDigit⟩ := isDate.exists_cons (by decide)
  obtain ⟨todo, suffix, reached⟩ := exists_suffix_of_joined runs all
    ⟨c, tail ++ back, rfl, isDigit⟩ (@getLast?_of_clear [] front clearBefore) split
  have later : Tokens Char.isDigit todo := fun token member => runs token (suffix.subset member)
  obtain ⟨a, c, b, d, rest, rfl, short, marked, marked', year⟩ :=
    isDate.exists_tokens clearAfter later all reached
  exact none a c b d rest suffix short marked marked' year

end Numeric

/-! ### The runs of digits -/

namespace Designator

/-- The character after the time. -/
def mark : Designator → Char
  | utc => 'Z'
  | offset behind _ _ => if behind then '-' else '+'

def tokens : Designator → List (List Char × Char)
  | utc => []
  | offset _ hours _ => [(Decimal.padded 2 hours, ':')]

def last : Designator → List Char
  | utc => []
  | offset _ _ minutes => Decimal.padded 2 minutes

theorem text_eq (zone : Designator) : zone.text = zone.mark :: joined zone.tokens zone.last := by
  cases zone <;> rfl

theorem isDigit_mark (zone : Designator) : zone.mark.isDigit = false := by
  cases zone with
  | utc => decide
  | offset behind => cases behind <;> rfl

theorem mark_ne_colon (zone : Designator) : zone.mark ≠ ':' := by
  cases zone with
  | utc => decide
  | offset behind => cases behind <;> exact fun impossible => nomatch impossible

theorem clear_text (zone : Designator) (notUtc : zone ≠ utc) : Clear zone.text := by
  cases zone with
  | utc => exact absurd rfl notUtc
  | offset behind => cases behind <;> exact clear_cons.mpr rfl

end Designator

namespace SecondsPart

def tokens (minute : ℕ) (zone : Designator) : SecondsPart → List (List Char × Char)
  | none => [(Decimal.padded 2 minute, zone.mark)]
  | whole second => [(Decimal.padded 2 minute, ':'), (Decimal.padded 2 second, zone.mark)]
  | fraction second digits =>
      [(Decimal.padded 2 minute, ':'), (Decimal.padded 2 second, '.'), (digits, zone.mark)]

end SecondsPart

namespace ZonedDateTime

variable {t : ZonedDateTime}

def tokens (t : ZonedDateTime) : List (List Char × Char) :=
  (Decimal.padded 4 t.date.year.natAbs, '-') :: (Decimal.padded 2 (t.date.month + 1), '-') ::
    (Decimal.padded 2 t.date.day, 'T') :: (Decimal.padded 2 t.hour, ':') ::
      (t.seconds.tokens t.minute t.zone ++ t.zone.tokens)

theorem Valid.yearText (valid : t.Valid) :
    Calendar.yearText t.date.year = Decimal.padded 4 t.date.year.natAbs := by
  have low := valid.low
  have high := valid.high
  exact yearText_eq (by omega) (by omega)

theorem Valid.text_eq (valid : t.Valid) : t.text = joined t.tokens t.zone.last := by
  have year := valid.yearText
  obtain ⟨date, hour, minute, seconds, zone⟩ := t
  simp only at year
  simp only [text, Calendar.dateText, year, tokens, joined, zone.text_eq, List.append_assoc,
    List.cons_append]
  cases seconds with
  | none => rfl
  | whole second =>
      simp only [SecondsPart.text, SecondsPart.tokens, List.cons_append, List.nil_append, joined]
  | fraction second digits =>
      simp only [SecondsPart.text, SecondsPart.tokens, List.cons_append, List.nil_append, joined,
        List.append_assoc]

/-- Every run is one of digits. -/
theorem Valid.tokens (valid : t.Valid) : Tokens Char.isDigit t.tokens ∧
    ∀ c ∈ t.zone.last, c.isDigit = true := by
  have padded : ∀ (width n : ℕ), ∀ c ∈ Decimal.padded width n, c.isDigit = true :=
    fun _ _ c => Decimal.isDigit_of_mem_padded
  have afterTime := t.zone.isDigit_mark
  have marks : ('-'.isDigit = false ∧ 'T'.isDigit = false) ∧ ':'.isDigit = false ∧
      '.'.isDigit = false := by decide
  have seconds := valid.seconds
  refine ⟨?_, ?_⟩
  · have ofZone : Tokens Char.isDigit t.zone.tokens := by
      cases t.zone with
      | utc => exact fun _ absent => nomatch absent
      | offset behind hours => exact List.forall_mem_singleton.mpr ⟨padded 2 hours, marks.2.1⟩
    have ofSeconds : Tokens Char.isDigit (t.seconds.tokens t.minute t.zone) := by
      unfold Tokens
      cases split : t.seconds with
      | none => exact List.forall_mem_singleton.mpr ⟨padded 2 t.minute, afterTime⟩
      | whole second =>
          simp only [SecondsPart.tokens, List.forall_mem_cons, List.not_mem_nil, false_implies,
            implies_true, and_true]
          exact ⟨⟨padded 2 t.minute, marks.2.1⟩, padded 2 second, afterTime⟩
      | fraction second digits =>
          rw [split] at seconds
          simp only [SecondsPart.tokens, List.forall_mem_cons, List.not_mem_nil, false_implies,
            implies_true, and_true]
          exact ⟨⟨padded 2 t.minute, marks.2.1⟩, ⟨padded 2 second, marks.2.2⟩, seconds.2.2,
            afterTime⟩
    unfold Tokens ZonedDateTime.tokens
    simp only [List.forall_mem_cons, List.forall_mem_append]
    exact ⟨⟨padded 4 _, marks.1.1⟩, ⟨padded 2 _, marks.1.1⟩, ⟨padded 2 _, marks.1.2⟩,
      ⟨padded 2 _, marks.2.1⟩, ofSeconds, ofZone⟩
  · cases t.zone with
    | utc => exact fun _ absent => nomatch absent
    | offset behind hours minutes => exact padded 2 minutes

/-- After the last run of the time at most one delimiter comes. -/
theorem Designator.not_suffix {zone : Designator} {a b run : List Char} {c d mark : Char}
    {rest : List (List Char × Char)} (marked : isDelimiter d = true) :
    ¬ (a, c) :: (b, d) :: rest <:+ (run, mark) :: zone.tokens := by
  intro suffix
  have ends : ∀ {found : List Char × Char}, (b, d) :: rest <:+ [found] → (b, d) = found := by
    intro found suffix
    have whole := suffix.eq_of_length_le (Nat.succ_le_succ (Nat.zero_le rest.length))
    exact (List.cons.inj whole).1
  have later : (b, d) :: rest <:+ zone.tokens := by
    rcases List.suffix_cons_iff.mp suffix with same | suffix
    · rw [(List.cons.inj same).2]
    · exact (List.suffix_cons _ _).trans suffix
  cases zone with
  | utc => exact absurd (List.suffix_nil.mp later) (List.cons_ne_nil _ _)
  | offset behind hours =>
      obtain ⟨-, rfl⟩ := Prod.mk.inj (ends later)
      cases marked

/-- No numeric date stands in it. -/
theorem Valid.numericDelimitedDate_absent (valid : t.Valid) :
    DateFormat.numericDelimitedDate.tryParse t.text = .none := by
  rw [valid.text_eq]
  refine Processing.numericDelimitedDate_absent valid.tokens.1 valid.tokens.2 ?_
  intro a c b d rest suffix short marked marked' year
  have four := Decimal.length_padded 4 t.date.year.natAbs
  have passes : ∀ {run : List Char} {mark : Char} {tokens : List (List Char × Char)},
      isDelimiter mark = false → (a, c) :: (b, d) :: rest <:+ (run, mark) :: tokens →
        (a, c) :: (b, d) :: rest <:+ tokens := by
    intro run mark tokens unmarked suffix
    rcases List.suffix_cons_iff.mp suffix with same | suffix
    · obtain ⟨-, rfl⟩ := Prod.mk.inj (List.cons.inj same).1
      rw [unmarked] at marked
      cases marked
    · exact suffix
  unfold ZonedDateTime.tokens at suffix
  rcases List.suffix_cons_iff.mp suffix with same | suffix
  · obtain ⟨rfl, -⟩ := Prod.mk.inj (List.cons.inj same).1
    omega
  rcases List.suffix_cons_iff.mp suffix with same | suffix
  · obtain ⟨-, rfl⟩ := Prod.mk.inj (List.cons.inj (List.cons.inj same).2).1
    cases marked'
  have suffix := passes (by decide) (passes (by decide) suffix)
  cases split : t.seconds with
  | none =>
      rw [split] at suffix
      exact Designator.not_suffix marked' suffix
  | whole second =>
      rw [split] at suffix
      exact Designator.not_suffix marked' (passes (by decide) suffix)
  | fraction second digits =>
      rw [split] at suffix
      rcases List.suffix_cons_iff.mp (passes (by decide) suffix) with same | suffix
      · obtain ⟨-, after⟩ := List.cons.inj same
        obtain ⟨-, rfl⟩ := List.cons.inj after
        cases zone : t.zone with
        | utc =>
            rw [zone] at year
            cases year
        | offset behind hours =>
            rw [zone] at year
            have two := Decimal.length_padded 2 hours
            exact absurd (two.symm.trans year) (by decide)
      · exact Designator.not_suffix marked' suffix

/-- The only letters are the ones of the format. -/
theorem Valid.few_letters (valid : t.Valid) :
    ∀ c ∈ t.text, IsLetter c → c = 'T' ∨ c = 'Z' := by
  have inTokens : ∀ {tokens : List (List Char × Char)} {last : List Char},
      Tokens Char.isDigit tokens → (∀ c ∈ last, c.isDigit = true) →
        (∀ token ∈ tokens, IsLetter token.2 → token.2 = 'T' ∨ token.2 = 'Z') →
          ∀ c ∈ joined tokens last, IsLetter c → c = 'T' ∨ c = 'Z' := by
    intro tokens last runs all marks c member letter
    have notDigit := isDigit_of_isLetter letter
    induction tokens with
    | nil =>
        rw [all c member] at notDigit
        cases notDigit
    | cons token tokens ih =>
        rcases List.mem_append.mp member with run | after
        · rw [(runs token List.mem_cons_self).1 c run] at notDigit
          cases notDigit
        · rcases List.mem_cons.mp after with rfl | later
          · exact marks token List.mem_cons_self letter
          · exact ih (fun token member => runs token (List.mem_cons_of_mem _ member))
              (fun token member => marks token (List.mem_cons_of_mem _ member)) later
  have ofZone : IsLetter t.zone.mark → t.zone.mark = 'T' ∨ t.zone.mark = 'Z' := by
    cases t.zone with
    | utc => exact fun _ => Or.inr rfl
    | offset behind => cases behind <;> exact fun impossible => nomatch impossible
  have noLetter : ∀ mark ∈ ['-', ':', '.'], IsLetter mark → mark = 'T' ∨ mark = 'Z' := by
    unfold IsLetter
    decide
  rw [valid.text_eq]
  refine inTokens valid.tokens.1 valid.tokens.2 ?_
  have dash := noLetter '-' (by decide)
  have colon := noLetter ':' (by decide)
  have point := noLetter '.' (by decide)
  have zoneTokens : ∀ token ∈ t.zone.tokens, IsLetter token.2 → token.2 = 'T' ∨ token.2 = 'Z' := by
    cases t.zone with
    | utc => exact fun _ absent => nomatch absent
    | offset => exact List.forall_mem_singleton.mpr colon
  unfold ZonedDateTime.tokens
  simp only [List.forall_mem_cons, List.forall_mem_append]
  refine ⟨dash, dash, fun _ => Or.inl trivial, colon, ?_, zoneTokens⟩
  cases t.seconds with
  | none => exact List.forall_mem_singleton.mpr ofZone
  | whole second =>
      simp only [SecondsPart.tokens, List.forall_mem_cons, List.not_mem_nil, false_implies,
        implies_true, and_true]
      exact ⟨colon, ofZone⟩
  | fraction second digits =>
      simp only [SecondsPart.tokens, List.forall_mem_cons, List.not_mem_nil, false_implies,
        implies_true, and_true]
      exact ⟨colon, point, ofZone⟩

/-- The longest time of day after the date, and the seconds that are read there. -/
def ShowsSecond (t : ZonedDateTime) (second : ℕ) : Prop :=
  LongestTime isTimeSeparator ('T' :: (Decimal.padded 2 t.hour ++ ':' ::
    (Decimal.padded 2 t.minute ++ (t.seconds.text ++ t.zone.text))))
      (some ⟨t.hour, t.minute, second⟩)

/-- What is read where a time of day can be read. -/
theorem Valid.firstDate (valid : t.Valid) {second : ℕ}
    (longest : t.ShowsSecond second) :
    FirstDate .yearMonthDay t.text
      ⟨t.date.year, t.date.month, t.date.day, some ⟨t.hour, t.minute, second⟩⟩ := by
  have low := valid.low
  have high := valid.high
  have month := valid.date.month_lt
  have day := valid.date.day_le
  have dash : isDelimiter '-' = true := rfl
  have first := @firstDate_yearMonthDay [] _ (Decimal.padded 4 t.date.year.natAbs)
    (Decimal.padded 2 (t.date.month + 1)) (Decimal.padded 2 t.date.day) '-' '-' _
    (fun _ absent => nomatch absent) clear_nil (digits_padded 4 _) dash (digits_twoDigits _) dash
    (digits_twoDigits _) (stops_cons (by decide)) longest
  have year : ((t.date.year.natAbs : ℕ) : ℤ) = t.date.year := Int.natAbs_of_nonneg (by omega)
  have monthIndex : ((t.date.month + 1 : ℕ) : ℤ) - 1 = t.date.month := by omega
  rw [value_padded (by omega), value_padded (by omega), value_padded (by omega), year,
    monthIndex] at first
  simp only [text, Calendar.dateText, valid.yearText, List.append_assoc, List.cons_append]
  exact first

/-- The hour 24 is not read. -/
theorem Valid.extract_of_longest (valid : t.Valid) {second : ℕ} (small : second ≤ 59)
    (longest : t.ShowsSecond second) :
    extractTimestampFromText t.text = if t.hour ≤ 23 then
      some (String.ofList (isoText t.date ((t.hour * 60 + t.minute) * 60 + second))) else none := by
  have minute := valid.minute
  obtain ⟨noName, noName'⟩ := tryParse_of_few_letters valid.few_letters
  rw [extractTimestampFromText_eq, noName, noName', valid.numericDelimitedDate_absent,
    (valid.firstDate longest).tryParse_eq, Option.none_or, Option.none_or, Option.or_none]
  by_cases inDay : t.hour ≤ 23
  · have fields : (⟨t.date.year, t.date.month, t.date.day, some ⟨t.hour, t.minute, second⟩⟩ :
        DateFields) = printedFields t.date ((t.hour * 60 + t.minute) * 60 + second) := by
      have hours : ((t.hour * 60 + t.minute) * 60 + second) / 3600 = t.hour := by omega
      have minutes : ((t.hour * 60 + t.minute) * 60 + second) / 60 % 60 = t.minute := by omega
      have seconds : ((t.hour * 60 + t.minute) * 60 + second) % 60 = second := by omega
      rw [printedFields, hours, minutes, seconds]
    rw [if_pos inDay, fields, timestamp_printedFields valid.date valid.low valid.high (by omega)]
  · rw [if_neg inDay, ← Option.not_isSome_iff_eq_none, DateFields.timestamp_isSome_iff]
    intro fieldsValid
    have clock := fieldsValid.2 _ rfl
    unfold ClockFields.Valid at clock
    simp only at clock
    omega

/-- Without seconds a `Z` hides the time, and with it the date. -/
theorem Valid.extract_of_hidden (valid : t.Valid) (utc : t.zone = .utc)
    (noSeconds : t.seconds = .none) : extractTimestampFromText t.text = none := by
  have dash : isDelimiter '-' = true := rfl
  have text : t.text = Decimal.padded 4 t.date.year.natAbs ++ '-' ::
      (Decimal.padded 2 (t.date.month + 1) ++ '-' :: (Decimal.padded 2 t.date.day ++ (['T'] ++
        (Decimal.padded 2 t.hour ++ ':' :: (Decimal.padded 2 t.minute ++ ['Z']))))) := by
    simp only [ZonedDateTime.text, Calendar.dateText, valid.yearText, utc, noSeconds,
      SecondsPart.text, Designator.text, List.append_assoc, List.cons_append, List.nil_append]
  have noDate : DateFormat.yearMonthDay.tryParse t.text = none := by
    apply tryParse_eq_none_of_absent
    intro front word back fields stands
    obtain ⟨split, isDate, clearBefore, clearAfter⟩ := stands
    rw [text] at split
    obtain rfl := isDate.begins_first (digits_padded 4 _) dash (digits_twoDigits _) dash (by
      intro c member
      simp only [List.mem_append, List.mem_cons, List.not_mem_nil, or_false] at member
      rcases member with day | rfl | hour | rfl | minute | rfl
      · exact isDelimiter_of_isDigit (Decimal.isDigit_of_mem_padded day)
      · decide
      · exact isDelimiter_of_isDigit (Decimal.isDigit_of_mem_padded hour)
      · decide
      · exact isDelimiter_of_isDigit (Decimal.isDigit_of_mem_padded minute)
      · decide) (@getLast?_of_clear [] front clearBefore) split
    cases isDate with
    | yearMonthDay isYear marked isMonth marked' isDay isTime =>
        obtain ⟨-, left⟩ := threeNumbers_split (fun _ => isDigit_of_isTimeSeparator)
          (digits_padded 4 _) dash (digits_twoDigits _) dash (digits_twoDigits _)
          (stops_cons (by decide)) isYear marked isMonth marked' isDay isTime clearAfter split
        have reads : TimeAt isTimeSeparator _ _ back _ := ⟨left, isTime, clearAfter⟩
        rcases reads.hourMinute (fun _ => isDigit_of_isTimeSeparator)
          (List.forall_mem_singleton.mpr rfl) (digits_twoDigits _) (digits_padded 2 _) with
          rfl | ⟨seconds, second, isSecond, after, -, -⟩
        · rw [← show _ = back from left] at clearAfter
          exact absurd (clear_cons.mp clearAfter) (by decide)
        · cases isSecond with
          | none =>
              rw [← show _ = back from after] at clearAfter
              exact absurd clearAfter (by decide)
          | colon => cases after
  obtain ⟨noName, noName'⟩ := tryParse_of_few_letters valid.few_letters
  rw [extractTimestampFromText_eq, noName, noName', noDate, valid.numericDelimitedDate_absent]
  rfl

/-- What is read keeps the instant where its seconds are the true ones. -/
theorem Valid.keepsInstant_iff_of_longest (valid : t.Valid) {second : ℕ} (small : second ≤ 59)
    (longest : t.ShowsSecond second) :
    t.KeepsInstant ↔ t.hour = 24 ∨ (second : ℤ) = t.seconds.second - t.zone.ahead := by
  have minute := valid.minute
  have hour := valid.hour
  unfold KeepsInstant
  rw [valid.extract_of_longest small longest]
  by_cases inDay : t.hour ≤ 23
  · simp only [inDay, ↓reduceIte, Option.some.injEq, forall_eq']
    rw [denotes_isoText_iff valid.date valid.low valid.high (by omega), instant]
    omega
  · simp only [inDay, ↓reduceIte, reduceCtorEq, false_implies, implies_true, true_iff]
    omega

theorem Valid.second_le (valid : t.Valid) : t.seconds.second ≤ 59 := by
  have seconds := valid.seconds
  cases split : t.seconds with
  | none => exact Nat.zero_le _
  | whole second =>
      rw [split] at seconds
      exact seconds
  | fraction second digits =>
      rw [split] at seconds
      exact seconds.1

/-- The seconds are read where no letter follows them. -/
theorem Valid.showsSecond (valid : t.Valid) {second : ℕ} (small : second ≤ 59) {back : List Char}
    (clear : Clear back)
    (split : t.seconds.text ++ t.zone.text = ':' :: (Decimal.padded 2 second ++ back)) :
    t.ShowsSecond second := by
  have hour := valid.hour
  have minute := valid.minute
  have longest := @longestTime_seconds back ['T'] (Decimal.padded 2 t.hour)
    (Decimal.padded 2 t.minute) (Decimal.padded 2 second) isTimeSeparator
    (fun _ => isDigit_of_isTimeSeparator) (List.cons_ne_nil _ _)
    (List.forall_mem_singleton.mpr rfl) (digits_twoDigits _) (digits_padded 2 _)
    (digits_padded 2 _) clear
  rw [value_padded (by omega), value_padded (by omega), value_padded (by omega)] at longest
  unfold ShowsSecond
  rw [split]
  exact longest

/-- The minutes end the time where no seconds can be read after them. -/
theorem Valid.showsSecond_zero (valid : t.Valid) (clear : Clear (t.seconds.text ++ t.zone.text))
    (noSeconds : ∀ second back, Digits 2 2 second →
      t.seconds.text ++ t.zone.text = ':' :: (second ++ back) → ¬ Clear back) :
    t.ShowsSecond 0 := by
  have hour := valid.hour
  have minute := valid.minute
  have longest := @longestTime_minutes _ ['T'] (Decimal.padded 2 t.hour)
    (Decimal.padded 2 t.minute) isTimeSeparator (fun _ => isDigit_of_isTimeSeparator)
    (List.cons_ne_nil _ _) (List.forall_mem_singleton.mpr rfl) (digits_twoDigits _)
    (digits_padded 2 _) clear noSeconds
  rw [value_padded (by omega), value_padded (by omega)] at longest
  exact longest

/-- A fraction keeps the `Z` away from the second. -/
theorem Valid.showsSecond_fraction (valid : t.Valid) {second : ℕ} {digits : List Char}
    (fraction : t.seconds = .fraction second digits) : t.ShowsSecond second := by
  have small := valid.second_le
  rw [fraction] at small
  have point : Clear ('.' :: (digits ++ t.zone.text)) := clear_cons.mpr rfl
  refine valid.showsSecond small point ?_
  rw [fraction]
  simp only [SecondsPart.text, List.cons_append, List.append_assoc]

/-- Before an offset every second is read. -/
theorem Valid.showsSecond_offset (valid : t.Valid) (notUtc : t.zone ≠ .utc) :
    t.ShowsSecond t.seconds.second := by
  have clear := t.zone.clear_text notUtc
  have small := valid.second_le
  cases split : t.seconds with
  | none =>
      refine valid.showsSecond_zero ?_ ?_
      · rw [split]
        exact clear
      · intro second back digits same
        rw [split] at same
        exact absurd (List.cons.inj (t.zone.text_eq.symm.trans same)).1 (t.zone.mark_ne_colon)
  | whole second =>
      rw [split] at small
      refine valid.showsSecond small clear ?_
      rw [split]
      rfl
  | fraction second digits => exact valid.showsSecond_fraction split

/-- A `Z` takes the whole second before it along. -/
theorem Valid.showsSecond_utc (valid : t.Valid) (utc : t.zone = .utc) {second : ℕ}
    (whole : t.seconds = .whole second) : t.ShowsSecond 0 := by
  refine valid.showsSecond_zero ?_ ?_
  · rw [whole]
    exact clear_cons.mpr rfl
  · intro second' back digits same
    rw [whole, utc] at same
    obtain ⟨-, rfl⟩ := (digits_padded 2 second).split_fixed digits (List.cons.inj same).2
    decide

/-- An instant is kept exactly where nothing that the patterns cannot read stands after the time. -/
theorem Valid.keepsInstant_iff (valid : t.Valid) : t.KeepsInstant ↔ t.Kept := by
  unfold Kept
  cases zone : t.zone with
  | utc =>
      cases split : t.seconds with
      | none =>
          have hidden := valid.extract_of_hidden zone split
          refine iff_of_true ?_ (Or.inr fun second impossible => nomatch impossible)
          intro timestamp found
          rw [hidden] at found
          cases found
      | whole second =>
          rw [valid.keepsInstant_iff_of_longest (Nat.zero_le _) (valid.showsSecond_utc zone split),
            split, zone, Designator.ahead, SecondsPart.second]
          simp only [SecondsPart.whole.injEq, forall_eq']
          omega
      | fraction second digits =>
          have small := valid.second_le
          rw [split] at small
          rw [valid.keepsInstant_iff_of_longest small (valid.showsSecond_fraction split), split,
            zone, Designator.ahead]
          refine iff_of_true (Or.inr (sub_zero _).symm) (Or.inr ?_)
          exact fun second impossible => nomatch impossible
  | offset behind hours minutes =>
      have longest := valid.showsSecond_offset
        (by rw [zone]; exact fun impossible => nomatch impossible)
      rw [valid.keepsInstant_iff_of_longest valid.second_le longest, zone, Designator.ahead]
      cases behind with
      | false =>
          simp only [Bool.false_eq_true, ↓reduceIte]
          omega
      | true =>
          simp only [↓reduceIte]
          omega

/-- `2026-04-08T14:30:45Z` -/
def april : ZonedDateTime := ⟨⟨2026, 3, 8⟩, 14, 30, .whole 45, .utc⟩

theorem april_valid : april.Valid :=
  ⟨by decide, by decide, by decide, Or.inl (by decide), by decide, (by decide : 45 ≤ 59), trivial⟩

theorem april_keepsInstant_iff : april.KeepsInstant ↔ april.Kept := april_valid.keepsInstant_iff

/-- Its seconds are lost. -/
theorem not_keepsInstant : april.Valid ∧ ¬ april.KeepsInstant := by
  refine ⟨april_valid, ?_⟩
  intro keeps
  have found : extractTimestampFromText april.text = some "2026-04-08T14:30:00.000Z" := by decide
  have denotes := keeps _ found
  rw [show "2026-04-08T14:30:00.000Z" = String.ofList (isoText ⟨2026, 3, 8⟩ 52200) by decide,
    denotes_isoText_iff (by decide) (by decide) (by decide) (by decide)] at denotes
  exact absurd denotes (by decide)

end ZonedDateTime

end BirrTrack.Processing
