import BirrTrack.Foundation.Captures
import BirrTrack.Processing.TimestampPaths

/-! # The date formats

What the four date patterns of the parsing service take for a date, as a grammar of texts
with the numbers they print (`DateText`), and where such a date stands in a text
(`DateAt`). Of all places the leftmost one is read, and as much of a time of day as
stands there (`FirstDate`): `tryParse_eq_some_iff` and `tryParse_eq_none_iff`.
-/

namespace BirrTrack.Processing

open Js Backtracking Pattern

/-! ## The grammar -/

inductive DateFormat where
  | dayMonthNameYear
  | monthNameDayYear
  | yearMonthDay
  | numericDelimitedDate
  deriving DecidableEq

/-- The time of day that a text prints. -/
structure ClockFields where
  hour : ℤ
  minute : ℤ
  second : ℤ
  deriving DecidableEq

/-- The numbers that a text prints; months are counted from zero. -/
structure DateFields where
  year : ℤ
  monthIndex : ℤ
  day : ℤ
  clock : Option ClockFields
  deriving DecidableEq

/-- Between `least` and `most` digits. -/
def Digits (least most : ℕ) (word : List Char) : Prop :=
  least ≤ word.length ∧ word.length ≤ most ∧ ∀ c ∈ word, c.isDigit = true

/-- A dash, a slash or a point. -/
def isDelimiter (c : Char) : Bool := c = '-' ∨ c = '/' ∨ c = '.'

/-- `[,/\s]` -/
def isYearSeparator (c : Char) : Bool := c = ',' ∨ c = '/' ∨ isSpace c

/-- `[T\s]` -/
def isTimeSeparator (c : Char) : Bool := c = 'T' ∨ isSpace c

section Classes

variable {c : Char}

/-- The letters are those of ASCII, in either case. -/
theorem IsLetter.toNat (letter : IsLetter c) :
    65 ≤ c.toNat ∧ c.toNat ≤ 90 ∨ 97 ≤ c.toNat ∧ c.toNat ≤ 122 := by
  by_cases upper : c.isUpper = true
  · exact Or.inl (of_decide_eq_true upper)
  · have kept : c.toLower = c := dif_neg fun isUpper => upper (decide_eq_true isUpper)
    rw [IsLetter, kept] at letter
    have bounds := Bool.and_eq_true_iff.mp letter
    exact Or.inr ⟨of_decide_eq_true bounds.1, of_decide_eq_true bounds.2⟩

/-- A letter belongs to a word. -/
theorem isWordChar_of_isLetter (letter : IsLetter c) : isWordChar c = true := by
  have alphabetic : c.isAlpha = true := by
    rcases letter.toNat with upper | ⟨low, high⟩
    · exact Bool.or_eq_true_iff.mpr (Or.inl (decide_eq_true upper))
    · exact Bool.or_eq_true_iff.mpr (Or.inr (Bool.and_eq_true_iff.mpr
        ⟨decide_eq_true low, decide_eq_true high⟩))
  rw [isWordChar, Char.isAlphanum, alphabetic, Bool.true_or, Bool.true_or]

/-- A letter is no digit. -/
theorem isDigit_of_isLetter (letter : IsLetter c) : c.isDigit = false := by
  have range := letter.toNat
  by_contra digit
  have range' := Decimal.toNat_of_isDigit (by simpa using digit)
  omega

/-- A letter is no white space. -/
theorem isSpace_of_isLetter (letter : IsLetter c) : isSpace c = false := by
  have range := letter.toNat
  by_contra blank
  simp only [isSpace, Bool.not_eq_false, decide_eq_true_eq] at blank
  omega

/-- A letter is no delimiter. -/
theorem isDelimiter_of_isLetter (letter : IsLetter c) : isDelimiter c = false := by
  by_contra marked
  rw [Bool.not_eq_false] at marked
  unfold IsLetter at letter
  rcases of_decide_eq_true marked with rfl | rfl | rfl <;> revert letter <;> decide

/-- A delimiter is no digit. -/
theorem isDigit_of_isDelimiter (marked : isDelimiter c = true) : c.isDigit = false := by
  rcases of_decide_eq_true marked with rfl | rfl | rfl <;> decide

/-- A digit is no delimiter. -/
theorem isDelimiter_of_isDigit (digit : c.isDigit = true) : isDelimiter c = false :=
  @eq_false_of_apart isDelimiter Char.isDigit (fun _ => isDigit_of_isDelimiter) c digit

/-- A delimiter is no white space. -/
theorem isSpace_of_isDelimiter (marked : isDelimiter c = true) : isSpace c = false := by
  rcases of_decide_eq_true marked with rfl | rfl | rfl <;> decide

/-- What stands before a year is no digit. -/
theorem isDigit_of_isYearSeparator (separated : isYearSeparator c = true) : c.isDigit = false := by
  rcases of_decide_eq_true separated with rfl | rfl | blank
  · decide
  · decide
  · exact isDigit_of_isSpace blank

/-- What stands before a time of day is no digit. -/
theorem isDigit_of_isTimeSeparator (separated : isTimeSeparator c = true) : c.isDigit = false := by
  rcases of_decide_eq_true separated with rfl | blank
  · decide
  · exact isDigit_of_isSpace blank

/-- White space is no delimiter. -/
theorem isDelimiter_of_isSpace (blank : isSpace c = true) : isDelimiter c = false := by
  by_contra marked
  rw [isSpace_of_isDelimiter (by simpa only [Bool.not_eq_false] using marked)] at blank
  cases blank

theorem isLower_of_isDelimiter (marked : isDelimiter c = true) : c.toLower.isLower = false := by
  rcases of_decide_eq_true marked with rfl | rfl | rfl <;> decide

theorem isLower_of_isSpace (blank : isSpace c = true) : c.toLower.isLower = false := by
  by_contra letter
  rw [Bool.not_eq_false] at letter
  rw [isSpace_of_isLetter letter] at blank
  cases blank

theorem isLower_of_isYearSeparator (separated : isYearSeparator c = true) :
    c.toLower.isLower = false := by
  rcases of_decide_eq_true separated with rfl | rfl | blank
  · decide
  · decide
  · exact isLower_of_isSpace blank

end Classes

/-- How each month is written, in any case. -/
def monthSpellings : List (List String) :=
  [["jan", "january"], ["feb", "february"], ["mar", "march"], ["apr", "april"], ["may"],
    ["jun", "june"], ["jul", "july"], ["aug", "august"], ["sep", "sept", "september"],
    ["oct", "october"], ["nov", "november"], ["dec", "december"]]

def NamesMonth (name : List Char) (index : ℕ) : Prop :=
  ∃ spellings, monthSpellings[index]? = some spellings ∧
    name.map Char.toLower ∈ spellings.map String.toList

def IsOrdinal (word : List Char) : Prop :=
  word.map Char.toLower ∈ ["st", "nd", "rd", "th"].map String.toList

instance (word : List Char) : Decidable (IsOrdinal word) :=
  inferInstanceAs (Decidable (_ ∈ _))

instance (least most : ℕ) (word : List Char) : Decidable (Digits least most word) :=
  inferInstanceAs (Decidable (_ ∧ _ ∧ _))

/-- The seconds of a time of day, if it has any. -/
inductive SecondText : List Char → ℤ → Prop where
  | none : SecondText [] 0
  | colon {second : List Char} (digits : Digits 2 2 second) :
      SecondText (':' :: second) (Decimal.value second)

/-- A time of day after a date, or nothing. -/
inductive TimeText (separates : Char → Bool) : List Char → Option ClockFields → Prop where
  | none : TimeText separates [] .none
  | clock {separators hour minute seconds : List Char} {second : ℤ} (some : separators ≠ [])
      (separated : ∀ c ∈ separators, separates c = true) (isHour : Digits 1 2 hour)
      (isMinute : Digits 2 2 minute) (isSecond : SecondText seconds second) :
      TimeText separates (separators ++ (hour ++ ':' :: (minute ++ seconds)))
        (.some ⟨Decimal.value hour, Decimal.value minute, second⟩)

/-- The texts of each format, with the numbers they print. -/
inductive DateText : DateFormat → List Char → DateFields → Prop where
  | dayMonthNameYear {day name year : List Char} {index : ℕ} {c d : Char}
      (isDay : Digits 1 2 day) (isDelimiter : isDelimiter c = true)
      (isMonth : NamesMonth name index) (isDelimiter' : Processing.isDelimiter d = true)
      (isYear : Digits 4 4 year) :
      DateText .dayMonthNameYear (day ++ c :: (name ++ d :: year))
        ⟨Decimal.value year, index, Decimal.value day, none⟩
  | monthNameDayYear {name mark blanks day ordinal separators year : List Char} {index : ℕ}
      (isMonth : NamesMonth name index)
      (isMark : mark = [] ∨ ∃ c, isDelimiter c = true ∧ mark = [c])
      (some : blanks ≠ []) (blank : ∀ c ∈ blanks, isSpace c = true) (isDay : Digits 1 2 day)
      (isOrdinal : ordinal = [] ∨ IsOrdinal ordinal) (some' : separators ≠ [])
      (separated : ∀ c ∈ separators, isYearSeparator c = true) (isYear : Digits 4 4 year) :
      DateText .monthNameDayYear
        (name ++ (mark ++ (blanks ++ (day ++ (ordinal ++ (separators ++ year))))))
        ⟨Decimal.value year, index, Decimal.value day, none⟩
  | yearMonthDay {year month day time : List Char} {c d : Char} {clock : Option ClockFields}
      (isYear : Digits 4 4 year) (isDelimiter : isDelimiter c = true) (isMonth : Digits 1 2 month)
      (isDelimiter' : Processing.isDelimiter d = true) (isDay : Digits 1 2 day)
      (isTime : TimeText isTimeSeparator time clock) :
      DateText .yearMonthDay (year ++ c :: (month ++ d :: (day ++ time)))
        ⟨Decimal.value year, Decimal.value month - 1, Decimal.value day, clock⟩
  | numericDelimitedDate {a b year time : List Char} {c d : Char} {clock : Option ClockFields}
      (isFirst : Digits 1 2 a) (isDelimiter : isDelimiter c = true) (isSecond : Digits 1 2 b)
      (isDelimiter' : Processing.isDelimiter d = true) (isYear : Digits 4 4 year)
      (isTime : TimeText isSpace time clock) :
      DateText .numericDelimitedDate (a ++ c :: (b ++ d :: (year ++ time)))
        ⟨Decimal.value year, (dayAndMonthIndex (Decimal.value a) (Decimal.value b)).2,
          (dayAndMonthIndex (Decimal.value a) (Decimal.value b)).1, clock⟩

/-- A date of the format stands in the text, apart from other words. -/
structure DateAt (format : DateFormat) (text front word back : List Char)
    (fields : DateFields) : Prop where
  split : text = front ++ (word ++ back)
  isDate : DateText format word fields
  clearBefore : Clear front.reverse
  clearAfter : Clear back

/-- The date of the format that is read in a text: the leftmost one, with the longest time of
day that stands there. -/
structure FirstDate (format : DateFormat) (text : List Char) (fields : DateFields) : Prop where
  stands : ∃ front word back, DateAt format text front word back fields ∧
    ∀ front' word' back' fields', DateAt format text front' word' back' fields' →
      front.length ≤ front'.length ∧ (front'.length = front.length → word'.length ≤ word.length)

/-! ## What a date says -/

/-- The time of day exists. -/
def ClockFields.Valid (clock : ClockFields) : Prop :=
  0 ≤ clock.hour ∧ clock.hour ≤ 23 ∧ 0 ≤ clock.minute ∧ clock.minute ≤ 59 ∧
    0 ≤ clock.second ∧ clock.second ≤ 59

/-- The seconds since midnight. -/
def ClockFields.seconds (clock : ClockFields) : ℤ :=
  (clock.hour * 60 + clock.minute) * 60 + clock.second

/-- The date of the calendar that is printed. -/
structure DateFields.Prints (fields : DateFields) (date : Calendar.Date) : Prop where
  year : fields.year = date.year
  month : fields.monthIndex = date.month
  day : fields.day = date.day

/-- The date exists, in one of the years 1970 to 2100, and so does its time of day. -/
def DateFields.Valid (fields : DateFields) : Prop :=
  (∃ date : Calendar.Date, date.Valid ∧ 1970 ≤ date.year ∧ date.year ≤ 2100 ∧
    fields.Prints date) ∧ ∀ clock ∈ fields.clock, clock.Valid

/-- `YYYY-MM-DDTHH:MM:SS.000Z` -/
def isoText (date : Calendar.Date) (seconds : ℕ) : List Char :=
  Calendar.dateText date ++ 'T' :: (Calendar.clockText seconds ++ ".000Z".toList)

/-- The timestamp that the code makes of a date. -/
def DateFields.timestamp (fields : DateFields) : Option String :=
  if isReasonableYMD fields.year fields.monthIndex fields.day then
    match fields.clock with
    | none => toIsoUtcMidnight fields.year fields.monthIndex fields.day
    | some ⟨h, min, s⟩ =>
        if h < 0 ∨ h > 23 ∨ min < 0 ∨ min > 59 ∨ s < 0 ∨ s > 59 then none
        else (dateUTC fields.year fields.monthIndex fields.day h min s).map TimeValue.toISOString
  else none

/-- The seconds since midnight of the printed time; a date alone is its midnight. -/
def DateFields.seconds (fields : DateFields) : ℕ := (fields.clock.elim 0 ClockFields.seconds).toNat

/-- The check takes exactly the dates of the calendar from 1970 to 2100. -/
theorem isReasonableYMD_iff {year monthIndex day : ℤ} :
    isReasonableYMD year monthIndex day = true ↔ ∃ date : Calendar.Date, date.Valid ∧
      1970 ≤ date.year ∧ date.year ≤ 2100 ∧ year = date.year ∧ monthIndex = date.month ∧
        day = date.day := by
  refine ⟨?_, ?_⟩
  · intro reasonable
    unfold isReasonableYMD at reasonable
    split at reasonable
    next => cases reasonable
    next inside =>
      obtain ⟨midnight, -, same⟩ := (Option.any_eq_true _ _).mp reasonable
      obtain ⟨sameYear, sameMonth, sameDay⟩ := of_decide_eq_true same
      refine ⟨midnight.date, Calendar.dateOf_valid _, ?_, ?_, sameYear.symm, sameMonth.symm,
        sameDay.symm⟩
      · change 1970 ≤ midnight.getUTCFullYear
        omega
      · change midnight.getUTCFullYear ≤ 2100
        omega
  · intro found
    obtain ⟨date, valid, low, high, rfl, rfl, rfl⟩ := found
    exact isReasonableYMD_date valid low high

/-- The ISO text of a wall-clock time in UTC. -/
theorem toISOString_wallTime {date : Calendar.Date} (valid : date.Valid) {seconds : ℕ}
    (inDay : seconds < 86400) {t : TimeValue} (ms : t.ms = wallTime date seconds) :
    t.toISOString = String.ofList (isoText date seconds) := by
  have sameDay : t.ms / msPerDay = Calendar.dayOf date := by
    rw [ms, wallTime, msPerDay]
    omega
  have ofDay : t.msOfDay = seconds * 1000 := by
    rw [TimeValue.msOfDay, ms, wallTime, msPerDay]
    omega
  have noMs : seconds * 1000 % 1000 = 0 := Nat.mul_mod_left seconds 1000
  rw [TimeValue.toISOString, TimeValue.date, sameDay, Calendar.dateOf_dayOf valid, ofDay,
    Nat.mul_div_cancel seconds (by decide), noMs]
  rfl

/-- A date and a time of day in those years are written as they are. -/
theorem dateUTC_isoText {date : Calendar.Date} (valid : date.Valid) (low : 1970 ≤ date.year)
    (high : date.year ≤ 2100) {seconds : ℕ} (inDay : seconds < 86400) {hour minute second : ℤ}
    (isHour : hour = (seconds / 3600 : ℕ)) (isMinute : minute = (seconds / 60 % 60 : ℕ))
    (isSecond : second = (seconds % 60 : ℕ)) :
    (dateUTC date.year date.month date.day hour minute second).map TimeValue.toISOString =
      some (String.ofList (isoText date seconds)) := by
  obtain ⟨lower, upper⟩ := wallTime_bounds valid low high inDay
  let t : TimeValue := ⟨wallTime date seconds, abs_le.mpr ⟨by omega, by omega⟩⟩
  have clipped : timeClip (wallTime date seconds) = some t := timeClip_ms t
  rw [isHour, isMinute, isSecond, dateUTC_wallTime valid low, clipped, Option.map_some,
    toISOString_wallTime valid inDay rfl]

/-- A valid time of day is within a day. -/
theorem ClockFields.Valid.seconds_lt {clock : ClockFields} (valid : clock.Valid) :
    0 ≤ clock.seconds ∧ clock.seconds < 86400 := by
  unfold ClockFields.Valid at valid
  unfold ClockFields.seconds
  omega

/-- So is that of valid fields, midnight if there is none. -/
theorem DateFields.Valid.seconds_lt {fields : DateFields} (valid : fields.Valid) :
    fields.seconds < 86400 := by
  obtain ⟨-, clockValid⟩ := valid
  unfold DateFields.seconds
  cases time : fields.clock with
  | none => decide
  | some clock =>
      have bounds := (clockValid clock time).seconds_lt
      rw [Option.elim_some]
      omega

/-- Fields print one date at most. -/
theorem DateFields.Prints.unique {fields : DateFields} {date other : Calendar.Date}
    (prints : fields.Prints date) (prints' : fields.Prints other) : date = other := by
  obtain ⟨year, month, day⟩ := date
  obtain ⟨year', month', day'⟩ := other
  have sameYear : year = year' := prints.year.symm.trans prints'.year
  have sameMonth : (month : ℤ) = month' := prints.month.symm.trans prints'.month
  have sameDay : (day : ℤ) = day' := prints.day.symm.trans prints'.day
  rw [sameYear, Int.natCast_inj.mp sameMonth, Int.natCast_inj.mp sameDay]

/-- Fields that have a timestamp are valid. -/
theorem DateFields.valid_of_timestamp {fields : DateFields} {text : String}
    (found : fields.timestamp = some text) : fields.Valid := by
  unfold DateFields.timestamp at found
  split at found
  next reasonable =>
    obtain ⟨date, valid, low, high, year, month, day⟩ := isReasonableYMD_iff.mp reasonable
    refine ⟨⟨date, valid, low, high, year, month, day⟩, ?_⟩
    intro clock member
    rw [member] at found
    simp only at found
    split at found
    next => cases found
    next inside =>
      unfold ClockFields.Valid
      omega
  next => cases found

/-- The timestamp of a date that exists is the ISO text of the date and time it prints. -/
theorem DateFields.Valid.timestamp_eq {fields : DateFields} (valid : fields.Valid)
    {date : Calendar.Date} (prints : fields.Prints date) :
    fields.timestamp = some (String.ofList (isoText date fields.seconds)) := by
  have inDay := valid.seconds_lt
  obtain ⟨⟨other, inCalendar, low, high, prints'⟩, clockValid⟩ := valid
  obtain rfl := prints.unique prints'
  obtain ⟨year, monthIndex, day, clock⟩ := fields
  obtain ⟨rfl, rfl, rfl⟩ := prints
  have reasonable := isReasonableYMD_date inCalendar low high
  unfold DateFields.timestamp
  simp only [reasonable, ↓reduceIte]
  cases clock with
  | none => exact @dateUTC_isoText _ inCalendar low high 0 inDay 0 0 0 rfl rfl rfl
  | some clock =>
      obtain ⟨hour, minute, second⟩ := clock
      have bounds := clockValid _ rfl
      unfold ClockFields.Valid at bounds
      unfold DateFields.seconds ClockFields.seconds at inDay ⊢
      simp only [Option.elim_some] at bounds inDay ⊢
      rw [if_neg (by omega), dateUTC_isoText inCalendar low high inDay (by omega) (by omega)
        (by omega)]

/-- The code's checks pass exactly the dates and times that exist. -/
theorem DateFields.timestamp_isSome_iff {fields : DateFields} :
    fields.timestamp.isSome = true ↔ fields.Valid := by
  refine ⟨?_, ?_⟩
  · intro found
    obtain ⟨text, found⟩ := Option.isSome_iff_exists.mp found
    exact valid_of_timestamp found
  · intro valid
    obtain ⟨⟨date, -, -, -, prints⟩, -⟩ := id valid
    rw [valid.timestamp_eq prints, Option.isSome_some]

end BirrTrack.Processing
