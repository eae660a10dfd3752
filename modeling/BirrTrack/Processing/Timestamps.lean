import BirrTrack.Processing.DateReadings

/-! # Timestamps

What `extractTimestampFromText` answers: the first date of some format, as the ISO text of a date
that exists (`extractTimestampFromText_sound`), which it reads back as itself. A valid date in the
text is found exactly where the first date of some format is valid (`findsDate_iff`).
-/

namespace BirrTrack.Processing

open Js Backtracking Pattern

/-! ## Some format -/

section Formats

variable {text : List Char} {timestamp : String}

/-- A timestamp that is found is found by one of the formats. -/
theorem exists_tryParse_eq_some (found : extractTimestampFromText text = some timestamp) :
    ∃ format : DateFormat, format.tryParse text = some timestamp := by
  rw [extractTimestampFromText_eq] at found
  simp only [Option.or_eq_some_iff] at found
  rcases found with first | ⟨-, second | ⟨-, third | ⟨-, fourth⟩⟩⟩
  · exact ⟨_, first⟩
  · exact ⟨_, second⟩
  · exact ⟨_, third⟩
  · exact ⟨_, fourth⟩

/-- A timestamp is found exactly if the leftmost look-alike of some format has fields of a real
date. The other look-alikes of that format do not count. -/
theorem extractTimestampFromText_isSome_iff : (extractTimestampFromText text).isSome = true ↔
    ∃ format fields, FirstDate format text fields ∧ fields.Valid := by
  simp only [extractTimestampFromText_eq, Option.isSome_or, Bool.or_eq_true, tryParse_isSome_iff]
  refine ⟨?_, ?_⟩
  · rintro (first | second | third | fourth)
    · exact ⟨_, first⟩
    · exact ⟨_, second⟩
    · exact ⟨_, third⟩
    · exact ⟨_, fourth⟩
  · rintro ⟨format, found⟩
    cases format with
    | dayMonthNameYear => exact Or.inl found
    | monthNameDayYear => exact Or.inr (Or.inl found)
    | yearMonthDay => exact Or.inr (Or.inr (Or.inl found))
    | numericDelimitedDate => exact Or.inr (Or.inr (Or.inr found))

end Formats

/-! ## Dates of three numbers -/

section Numbers

variable {least most least₁ most₁ : ℕ} {format : DateFormat}
  {front front' word back rest text a b e time a' b' e' time' back' : List Char} {c d c' d' : Char}
  {separates : Char → Bool} {clock clock' : Option ClockFields} {fields : DateFields}

/-- No digit follows where no character of a word does. -/
theorem stops_of_clear (clear : Clear back) : ∀ c ∈ back.head?, c.isDigit = false := by
  intro c head
  by_contra digit
  have rejected := clear c head
  rw [isWordChar_of_isDigit (by simpa only [Bool.not_eq_false] using digit)] at rejected
  cases rejected

/-- The three numbers at a place are determined, whatever time is read after them. -/
theorem threeNumbers_split (apart : ∀ c, separates c = true → c.isDigit = false)
    (isFirst : Digits least₁ most₁ a) (marked : isDelimiter c = true) (isSecond : Digits 1 2 b)
    (marked' : isDelimiter d = true) (isThird : Digits least most e)
    (stops : ∀ c ∈ rest.head?, c.isDigit = false)
    (isFirst' : Digits least₁ most₁ a') (marked₂ : isDelimiter c' = true)
    (isSecond' : Digits 1 2 b') (marked₂' : isDelimiter d' = true)
    (isThird' : Digits least most e') (isTime : TimeText separates time clock)
    (clearAfter : Clear back)
    (same : a ++ c :: (b ++ d :: (e ++ rest)) =
      (a' ++ c' :: (b' ++ d' :: (e' ++ time))) ++ back) :
    a' ++ c' :: (b' ++ d' :: (e' ++ time)) = a ++ c :: (b ++ d :: (e ++ time)) ∧
      rest = time ++ back := by
  simp only [List.append_assoc, List.cons_append] at same
  obtain ⟨rfl, rfl, rfl, rfl, thirds⟩ :=
    twoNumbers_split isFirst marked isSecond marked' isFirst' marked₂ isSecond' marked₂' same
  have stops' : ∀ c ∈ (time ++ back).head?, c.isDigit = false := by
    have timed := isTime.stops apart
    cases time with
    | nil => exact stops_of_clear clearAfter
    | cons x time => exact timed
  obtain ⟨rfl, rfl⟩ := isThird.split isThird' thirds stops stops'
  exact ⟨rfl, rfl⟩

/-- Every text of a format but the one that begins with a month's name begins with a digit. -/
theorem DateText.exists_cons (isDate : DateText format word fields)
    (notName : format ≠ .monthNameDayYear) : ∃ c tail, word = c :: tail ∧ c.isDigit = true := by
  cases isDate with
  | dayMonthNameYear isDay =>
      obtain ⟨c, tail, rfl, isDigit⟩ := isDay.exists_cons
      exact ⟨c, _, rfl, isDigit⟩
  | monthNameDayYear => exact absurd rfl notName
  | yearMonthDay isYear =>
      obtain ⟨c, tail, rfl, isDigit⟩ := isYear.exists_cons
      exact ⟨c, _, rfl, isDigit⟩
  | numericDelimitedDate isFirst =>
      obtain ⟨c, tail, rfl, isDigit⟩ := isFirst.exists_cons
      exact ⟨c, _, rfl, isDigit⟩

/-- What begins with a digit begins after a text without digits. -/
theorem DateAt.length_le_of_no_digits
    (stands : DateAt format (front ++ text) front' word back fields)
    (notName : format ≠ .monthNameDayYear) (none : ∀ c ∈ front, c.isDigit = false) :
    front.length ≤ front'.length := by
  by_contra shorter
  obtain ⟨c, tail, rfl, isDigit⟩ := stands.isDate.exists_cons notName
  obtain ⟨between, rfl, rest⟩ := exists_between stands.split.symm (Nat.le_of_not_le shorter)
  cases between with
  | nil => exact shorter (by rw [List.append_nil])
  | cons x between =>
      obtain rfl : c = x := (List.cons.inj rest).1
      rw [none c (List.mem_append_right _ List.mem_cons_self)] at isDigit
      cases isDigit

/-- A time of day, or none, that can be read after the date. -/
structure TimeAt (separates : Char → Bool) (rest time back : List Char)
    (clock : Option ClockFields) : Prop where
  split : rest = time ++ back
  isTime : TimeText separates time clock
  clearAfter : Clear back

/-- The time of day that is read after the date: the longest one. -/
def LongestTime (separates : Char → Bool) (rest : List Char) (clock : Option ClockFields) : Prop :=
  ∃ time back, TimeAt separates rest time back clock ∧
    ∀ time' back' clock', TimeAt separates rest time' back' clock' → time'.length ≤ time.length

/-- After a text without digits, a date written year first is the leftmost one of that format. -/
theorem firstDate_yearMonthDay (none : ∀ c ∈ front, c.isDigit = false)
    (clearBefore : Clear front.reverse) (isYear : Digits 4 4 a) (marked : isDelimiter c = true)
    (isMonth : Digits 1 2 b) (marked' : isDelimiter d = true) (isDay : Digits 1 2 e)
    (stops : ∀ c ∈ rest.head?, c.isDigit = false)
    (longest : LongestTime isTimeSeparator rest clock) :
    FirstDate .yearMonthDay (front ++ (a ++ c :: (b ++ d :: (e ++ rest))))
      ⟨Decimal.value a, Decimal.value b - 1, Decimal.value e, clock⟩ := by
  obtain ⟨time, back, reads, all⟩ := longest
  refine ⟨front, _, back, ⟨?_, .yearMonthDay isYear marked isMonth marked' isDay reads.isTime,
    clearBefore, reads.clearAfter⟩, ?_⟩
  · simp only [reads.split, List.append_assoc, List.cons_append]
  · intro front' word' back' fields' stands
    refine ⟨stands.length_le_of_no_digits (by decide) none, ?_⟩
    intro same
    obtain ⟨split, isDate, -, clearAfter⟩ := stands
    obtain ⟨-, split⟩ := List.append_inj split same.symm
    cases isDate with
    | yearMonthDay isYear' marked₂ isMonth' marked₂' isDay' isTime' =>
        obtain ⟨word, left⟩ := threeNumbers_split (fun _ => isDigit_of_isTimeSeparator) isYear
          marked isMonth marked' isDay stops isYear' marked₂ isMonth' marked₂' isDay' isTime'
          clearAfter split
        have le := all _ _ _ ⟨left, isTime', clearAfter⟩
        rw [word]
        simp only [List.length_append, List.length_cons]
        omega

/-- After a text without digits, a date written year last is the leftmost one of that format. -/
theorem firstDate_numericDelimitedDate (none : ∀ c ∈ front, c.isDigit = false)
    (clearBefore : Clear front.reverse) (isFirst : Digits 1 2 a) (marked : isDelimiter c = true)
    (isSecond : Digits 1 2 b) (marked' : isDelimiter d = true) (isYear : Digits 4 4 e)
    (stops : ∀ c ∈ rest.head?, c.isDigit = false) (longest : LongestTime isSpace rest clock) :
    FirstDate .numericDelimitedDate (front ++ (a ++ c :: (b ++ d :: (e ++ rest))))
      ⟨Decimal.value e, (dayAndMonthIndex (Decimal.value a) (Decimal.value b)).2,
        (dayAndMonthIndex (Decimal.value a) (Decimal.value b)).1, clock⟩ := by
  obtain ⟨time, back, reads, all⟩ := longest
  refine ⟨front, _, back, ⟨?_, .numericDelimitedDate isFirst marked isSecond marked' isYear
    reads.isTime, clearBefore, reads.clearAfter⟩, ?_⟩
  · simp only [reads.split, List.append_assoc, List.cons_append]
  · intro front' word' back' fields' stands
    refine ⟨stands.length_le_of_no_digits (by decide) none, ?_⟩
    intro same
    obtain ⟨split, isDate, -, clearAfter⟩ := stands
    obtain ⟨-, split⟩ := List.append_inj split same.symm
    cases isDate with
    | numericDelimitedDate isFirst' marked₂ isSecond' marked₂' isYear' isTime' =>
        obtain ⟨word, left⟩ := threeNumbers_split (fun _ => isDigit_of_isSpace) isFirst marked
          isSecond marked' isYear stops isFirst' marked₂ isSecond' marked₂' isYear' isTime'
          clearAfter split
        have le := all _ _ _ ⟨left, isTime', clearAfter⟩
        rw [word]
        simp only [List.length_append, List.length_cons]
        omega

end Numbers

/-! ## Times of day -/

section Times

variable {rest time back separators hour minute second : List Char} {separates : Char → Bool}
  {clock : Option ClockFields}

/-- What can be read where an hour and a minute stand. -/
theorem TimeAt.hourMinute (apart : ∀ c, separates c = true → c.isDigit = false)
    (separated : ∀ c ∈ separators, separates c = true) (isHour : Digits 1 2 hour)
    (isMinute : Digits 2 2 minute)
    (reads : TimeAt separates (separators ++ (hour ++ ':' :: (minute ++ rest))) time back clock) :
    time = [] ∨ ∃ seconds second, SecondText seconds second ∧ rest = seconds ++ back ∧
      time = separators ++ (hour ++ ':' :: (minute ++ seconds)) ∧
        clock = .some ⟨Decimal.value hour, Decimal.value minute, second⟩ := by
  obtain ⟨split, isTime, clearAfter⟩ := reads
  cases isTime with
  | none => exact Or.inl rfl
  | @clock separators' hour' minute' seconds second some' separated' isHour' isMinute' isSecond =>
      simp only [List.append_assoc, List.cons_append] at split
      obtain ⟨rfl, hours⟩ := split_unique split separated separated' (isHour.stops apart)
        (isHour'.stops apart)
      have colon : Char.isDigit ':' = false := by decide
      obtain ⟨rfl, minutes⟩ := isHour.split isHour' hours (stops_cons colon) (stops_cons colon)
      obtain ⟨rfl, rfl⟩ := isMinute.split_fixed isMinute' (List.cons.inj minutes).2
      exact Or.inr ⟨seconds, second, isSecond, rfl, rfl, rfl⟩

/-- The seconds are read where they end apart from other words. -/
theorem longestTime_seconds (apart : ∀ c, separates c = true → c.isDigit = false)
    (some : separators ≠ []) (separated : ∀ c ∈ separators, separates c = true)
    (isHour : Digits 1 2 hour) (isMinute : Digits 2 2 minute) (isSecond : Digits 2 2 second)
    (clearAfter : Clear back) :
    LongestTime separates (separators ++ (hour ++ ':' :: (minute ++ ':' :: (second ++ back))))
      (.some ⟨Decimal.value hour, Decimal.value minute, Decimal.value second⟩) := by
  refine ⟨_, back, ⟨?_, .clock some separated isHour isMinute (.colon isSecond), clearAfter⟩, ?_⟩
  · simp only [List.append_assoc, List.cons_append]
  · intro time' back' clock' reads
    rcases reads.hourMinute apart separated isHour isMinute with
      rfl | ⟨seconds, second', isSecond', -, rfl, -⟩
    · exact Nat.zero_le _
    · have two := Nat.le_antisymm isSecond.2.1 isSecond.1
      cases isSecond' with
      | none =>
          simp only [List.length_append, List.length_cons, List.length_nil]
          omega
      | colon digits =>
          have le := digits.2.1
          simp only [List.length_append, List.length_cons]
          omega

/-- The minutes are the end where no seconds end apart from other words. -/
theorem longestTime_minutes (apart : ∀ c, separates c = true → c.isDigit = false)
    (some : separators ≠ []) (separated : ∀ c ∈ separators, separates c = true)
    (isHour : Digits 1 2 hour) (isMinute : Digits 2 2 minute) (clearAfter : Clear rest)
    (noSeconds : ∀ second back, Digits 2 2 second → rest = ':' :: (second ++ back) → ¬ Clear back) :
    LongestTime separates (separators ++ (hour ++ ':' :: (minute ++ rest)))
      (.some ⟨Decimal.value hour, Decimal.value minute, 0⟩) := by
  refine ⟨separators ++ (hour ++ ':' :: (minute ++ [])), rest,
    ⟨?_, .clock some separated isHour isMinute .none, clearAfter⟩, ?_⟩
  · simp only [List.append_assoc, List.cons_append, List.append_nil]
  · intro time' back' clock' reads
    rcases reads.hourMinute apart separated isHour isMinute with
      rfl | ⟨seconds, second', isSecond', split, rfl, -⟩
    · exact Nat.zero_le _
    · cases isSecond' with
      | none => exact Nat.le_refl _
      | colon digits => exact absurd reads.clearAfter (noSeconds _ _ digits split)

/-- No time is read where no digits stand. -/
theorem longestTime_none (none : ∀ c ∈ rest, c.isDigit = false) (clearAfter : Clear rest) :
    LongestTime separates rest .none := by
  refine ⟨[], rest, ⟨rfl, .none, clearAfter⟩, ?_⟩
  intro time back clock reads
  obtain ⟨rfl, isTime, -⟩ := reads
  cases isTime with
  | none => exact Nat.le_refl 0
  | clock some separated isHour =>
      obtain ⟨c, tail, rfl, isDigit⟩ := isHour.exists_cons
      rw [none c (by simp)] at isDigit
      cases isDigit

end Times

/-! ## The timestamp itself -/

section Iso

variable {date : Calendar.Date} {seconds : ℕ}

/-- A number padded to a width has that many digits. -/
theorem digits_padded (width n : ℕ) : Digits width width (Decimal.padded width n) := by
  refine ⟨?_, ?_, fun c => Decimal.isDigit_of_mem_padded⟩
  · rw [Decimal.length_padded]
  · rw [Decimal.length_padded]

/-- Two digits are one or two digits, as the formats ask. -/
theorem digits_twoDigits (n : ℕ) : Digits 1 2 (Decimal.padded 2 n) := by
  obtain ⟨low, high, all⟩ := digits_padded 2 n
  exact ⟨Nat.le_of_succ_le low, high, all⟩

/-- The numbers of a date and a time of day. -/
def printedFields (date : Calendar.Date) (seconds : ℕ) : DateFields where
  year := date.year
  monthIndex := date.month
  day := date.day
  clock := some {
    hour := (seconds / 3600 : ℕ)
    minute := (seconds / 60 % 60 : ℕ)
    second := (seconds % 60 : ℕ) }

/-- The fields of a date from 1970 to 2100 and a second of the day pass `isValidDate`. -/
theorem printedFields_valid (valid : date.Valid) (low : 1970 ≤ date.year)
    (high : date.year ≤ 2100) (inDay : seconds < 86400) : (printedFields date seconds).Valid := by
  refine ⟨⟨date, valid, low, high, ⟨rfl, rfl, rfl⟩⟩, ?_⟩
  intro clock printed
  obtain rfl := Option.some.inj printed
  simp only [ClockFields.Valid]
  omega

/-- The fields of a second of the day are that second. -/
theorem printedFields_seconds : (printedFields date seconds).seconds = seconds := by
  simp only [DateFields.seconds, printedFields, Option.elim_some, ClockFields.seconds]
  omega

/-- These fields make the ISO form of the same date and second. -/
theorem timestamp_printedFields (valid : date.Valid) (low : 1970 ≤ date.year)
    (high : date.year ≤ 2100) (inDay : seconds < 86400) :
    (printedFields date seconds).timestamp = some (String.ofList (isoText date seconds)) := by
  have fieldsValid := printedFields_valid valid low high inDay
  have stamped := @DateFields.Valid.timestamp_eq _ fieldsValid date ⟨rfl, rfl, rfl⟩
  rwa [printedFields_seconds] at stamped

/-- A padded number has the value of the number, if it fits. -/
theorem value_padded {width n : ℕ} (fits : n < 10 ^ width) :
    (Decimal.value (Decimal.padded width n) : ℤ) = n := by
  rw [Decimal.value_padded_of_lt fits]

/-- The hour, minute and second that are printed are read back as those numbers. -/
theorem clock_padded (inDay : seconds < 86400) :
    (⟨Decimal.value (Decimal.padded 2 (seconds / 3600)),
      Decimal.value (Decimal.padded 2 (seconds / 60 % 60)),
      Decimal.value (Decimal.padded 2 (seconds % 60))⟩ : ClockFields) =
      ⟨(seconds / 3600 : ℕ), (seconds / 60 % 60 : ℕ), (seconds % 60 : ℕ)⟩ := by
  rw [value_padded (by omega), value_padded (by omega), value_padded (by omega)]

/-- A time of day in `HH:MM:SS` is read after a date wherever it ends apart from other words. -/
theorem firstDate_clockText (valid : date.Valid) (low : 0 ≤ date.year) (high : date.year ≤ 9999)
    (inDay : seconds < 86400) {separator : Char} (separates : isTimeSeparator separator = true)
    {back : List Char} (clear : Clear back) :
    FirstDate .yearMonthDay
      (Calendar.dateText date ++ separator :: (Calendar.clockText seconds ++ back))
      (printedFields date seconds) := by
  have month := valid.month_lt
  have day := valid.day_le
  have dash : isDelimiter '-' = true := rfl
  have first := @firstDate_yearMonthDay [] _ (Decimal.padded 4 date.year.natAbs)
    (Decimal.padded 2 (date.month + 1)) (Decimal.padded 2 date.day) '-' '-' _
    (fun _ absent => nomatch absent) clear_nil (digits_padded 4 _) dash (digits_twoDigits _) dash
    (digits_twoDigits _) (stops_cons (isDigit_of_isTimeSeparator separates))
    (@longestTime_seconds _ [separator] (Decimal.padded 2 (seconds / 3600))
      (Decimal.padded 2 (seconds / 60 % 60)) (Decimal.padded 2 (seconds % 60)) isTimeSeparator
      (fun _ => isDigit_of_isTimeSeparator) (List.cons_ne_nil _ _)
      (List.forall_mem_singleton.mpr separates) (digits_twoDigits _) (digits_padded 2 _)
      (digits_padded 2 _) clear)
  have year : ((date.year.natAbs : ℕ) : ℤ) = date.year := Int.natAbs_of_nonneg low
  have monthIndex : ((date.month + 1 : ℕ) : ℤ) - 1 = date.month := by omega
  rw [clock_padded inDay, value_padded (by omega), value_padded (by omega), value_padded (by omega),
    year, monthIndex] at first
  simp only [Calendar.dateText, Calendar.clockText, yearText_eq low high, List.append_assoc,
    List.cons_append]
  exact first

/-- The ISO form of a year of four digits has digits and five other characters. -/
theorem mem_isoText (low : 0 ≤ date.year) (high : date.year ≤ 9999) {c : Char}
    (member : c ∈ isoText date seconds) :
    c.isDigit = true ∨ c ∈ ['-', 'T', ':', '.', 'Z'] := by
  have digit : ∀ {width n : ℕ}, c ∈ Decimal.padded width n → c.isDigit = true :=
    Decimal.isDigit_of_mem_padded
  have ending : ∀ c ∈ ".000Z".toList, c.isDigit = true ∨ c ∈ ['-', 'T', ':', '.', 'Z'] := by decide
  simp only [isoText, Calendar.dateText, Calendar.clockText, yearText_eq low high, List.mem_append,
    List.mem_cons] at member
  rcases member with (year | rfl | month | rfl | day) | rfl | (hour | rfl | minute | rfl | second) |
    last
  · exact Or.inl (digit year)
  · exact Or.inr (by decide)
  · exact Or.inl (digit month)
  · exact Or.inr (by decide)
  · exact Or.inl (digit day)
  · exact Or.inr (by decide)
  · exact Or.inl (digit hour)
  · exact Or.inr (by decide)
  · exact Or.inl (digit minute)
  · exact Or.inr (by decide)
  · exact Or.inl (digit second)
  · exact ending c last

/-- Every month's name has a letter other than these two. -/
theorem NamesMonth.exists_letter {name : List Char} {index : ℕ} (names : NamesMonth name index) :
    ∃ c ∈ name, IsLetter c ∧ c ≠ 'T' ∧ c ≠ 'Z' := by
  have all : ∀ spellings ∈ monthSpellings, ∀ word ∈ spellings,
      word.toList.any (fun c => c != 't' && c != 'z') = true := by decide
  have letters := names.isLetter
  obtain ⟨spellings, here, member⟩ := names
  obtain ⟨word, listed, spelt⟩ := List.mem_map.mp member
  obtain ⟨d, inside, other⟩ :=
    List.any_eq_true.mp (all spellings (List.mem_of_getElem? here) word listed)
  simp only [Bool.and_eq_true, bne_iff_ne, ne_eq] at other
  obtain ⟨notT, notZ⟩ := other
  rw [spelt] at inside
  obtain ⟨c, written, rfl⟩ := List.mem_map.mp inside
  refine ⟨c, written, letters c written, ?_, ?_⟩
  · rintro rfl
    exact notT rfl
  · rintro rfl
    exact notZ rfl

/-- A date with a month's name has its letters. -/
theorem DateText.exists_name {format : DateFormat} {word : List Char} {fields : DateFields}
    (isDate : DateText format word fields)
    (isNamed : format = .dayMonthNameYear ∨ format = .monthNameDayYear) :
    ∃ name index, NamesMonth name index ∧ ∀ c ∈ name, c ∈ word := by
  cases isDate with
  | dayMonthNameYear _ _ isMonth =>
      refine ⟨_, _, isMonth, ?_⟩
      intro c member
      simp only [List.mem_append, List.mem_cons, member, true_or, or_true]
  | monthNameDayYear isMonth =>
      refine ⟨_, _, isMonth, ?_⟩
      intro c member
      simp only [List.mem_append, member, true_or]
  | yearMonthDay => rcases isNamed with impossible | impossible <;> cases impossible
  | numericDelimitedDate => rcases isNamed with impossible | impossible <;> cases impossible

/-- No month is named without other letters. -/
theorem tryParse_of_few_letters {text : List Char}
    (few : ∀ c ∈ text, IsLetter c → c = 'T' ∨ c = 'Z') :
    DateFormat.dayMonthNameYear.tryParse text = none ∧
      DateFormat.monthNameDayYear.tryParse text = none := by
  have absent : ∀ format, format = .dayMonthNameYear ∨ format = .monthNameDayYear →
      DateFormat.tryParse format text = none := by
    intro format isNamed
    apply tryParse_eq_none_of_absent
    intro front word back fields stands
    obtain ⟨name, index, names, inside⟩ := stands.isDate.exists_name isNamed
    obtain ⟨c, member, letter, notT, notZ⟩ := names.exists_letter
    have inText : c ∈ text := by
      rw [stands.split]
      exact List.mem_append_right _ (List.mem_append_left _ (inside c member))
    exact (few c inText letter).elim notT notZ
  exact ⟨absent _ (Or.inl rfl), absent _ (Or.inr rfl)⟩

/-- A timestamp is read as itself. -/
theorem extractTimestampFromText_isoText (valid : date.Valid) (low : 1970 ≤ date.year)
    (high : date.year ≤ 2100) (inDay : seconds < 86400) :
    extractTimestampFromText (isoText date seconds) =
      some (String.ofList (isoText date seconds)) := by
  obtain ⟨noName, noName'⟩ := @tryParse_of_few_letters (isoText date seconds) (by
    intro c member letter
    rcases mem_isoText (by omega) (by omega) member with digit | mark
    · rw [isDigit_of_isLetter letter] at digit
      cases digit
    · unfold IsLetter at letter
      simp only [List.mem_cons, List.not_mem_nil, or_false] at mark
      rcases mark with rfl | rfl | rfl | rfl | rfl
      · cases letter
      · exact Or.inl rfl
      · cases letter
      · cases letter
      · exact Or.inr rfl)
  have first := firstDate_clockText valid (by omega) (by omega) inDay
    (by decide : isTimeSeparator 'T' = true) (by decide : Clear ".000Z".toList)
  have read : DateFormat.yearMonthDay.tryParse (isoText date seconds) =
      some (String.ofList (isoText date seconds)) :=
    first.tryParse_eq.trans (timestamp_printedFields valid low high inDay)
  rw [extractTimestampFromText_eq, noName, noName', read]
  rfl

end Iso

/-- A timestamp is the ISO text of a date and time that exist and that the first date of some
format prints, and it is read as itself. -/
theorem extractTimestampFromText_sound {text : List Char} {timestamp : String}
    (found : extractTimestampFromText text = some timestamp) :
    (∃ format fields date, FirstDate format text fields ∧ fields.Prints date ∧ date.Valid ∧
      1970 ≤ date.year ∧ date.year ≤ 2100 ∧ (∀ clock ∈ fields.clock, clock.Valid) ∧
      fields.seconds < 86400 ∧ timestamp.toList = isoText date fields.seconds) ∧
    extractTimestampFromText timestamp.toList = some timestamp := by
  obtain ⟨format, parsed⟩ := exists_tryParse_eq_some found
  obtain ⟨fields, first, stamped⟩ := tryParse_eq_some_iff.mp parsed
  have fieldsValid := DateFields.valid_of_timestamp stamped
  obtain ⟨⟨date, valid, low, high, prints⟩, clockValid⟩ := id fieldsValid
  obtain rfl : _ = timestamp :=
    Option.some.inj ((fieldsValid.timestamp_eq prints).symm.trans stamped)
  rw [String.toList_ofList]
  exact ⟨⟨format, fields, date, first, prints, valid, low, high, clockValid, fieldsValid.seconds_lt,
    rfl⟩, extractTimestampFromText_isoText valid low high fieldsValid.seconds_lt⟩

/-- A text that is an ISO form already is kept. -/
theorem extractTimestampFromText_sound_april :
    extractTimestampFromText "2026-04-08T14:30:45.000Z".toList =
      some "2026-04-08T14:30:45.000Z" := by
  have found : extractTimestampFromText "08/04/2026 14:30:45".toList =
      some "2026-04-08T14:30:45.000Z" := by decide
  exact (extractTimestampFromText_sound found).2

/-! ## Which dates are found -/

/-- A date of the format at a place, with all of the time of day that stands there. -/
structure Occurs (format : DateFormat) (text front word back : List Char)
    (fields : DateFields) : Prop where
  stands : DateAt format text front word back fields
  longest : ∀ word' back' fields', DateAt format text front word' back' fields' →
    word'.length ≤ word.length

/-- A timestamp is found if a valid date stands anywhere in the text. -/
def FindsDate (text : List Char) : Prop :=
  (∃ format front word back fields, Occurs format text front word back fields ∧ fields.Valid) →
    extractTimestampFromText text ≠ none

/-- When the first date of the text is found: if no format has a valid look-alike at all, or if the
leftmost look-alike of some format is valid. A format whose leftmost look-alike is no real date
gives up, whatever dates stand behind it. -/
theorem findsDate_iff {text : List Char} : FindsDate text ↔
    (∀ format front word back fields, Occurs format text front word back fields →
      ¬ fields.Valid) ∨
    ∃ format fields, FirstDate format text fields ∧ fields.Valid := by
  rw [FindsDate, Option.ne_none_iff_isSome, extractTimestampFromText_isSome_iff, imp_iff_not_or]
  simp only [not_exists, not_and]

/-- A date that does not exist hides a later one. -/
theorem not_findsDate : ¬ FindsDate "31-Feb-2026 05-Apr-2026".toList := by
  have none : extractTimestampFromText "31-Feb-2026 05-Apr-2026".toList = none := by decide
  have isDate : DateText .dayMonthNameYear "05-Apr-2026".toList ⟨2026, 3, 5, .none⟩ :=
    @DateText.dayMonthNameYear "05".toList "Apr".toList "2026".toList 3 '-' '-' (by decide)
      (by decide) ⟨_, rfl, by decide⟩ (by decide) (by decide)
  have occurs : Occurs .dayMonthNameYear "31-Feb-2026 05-Apr-2026".toList "31-Feb-2026 ".toList
      "05-Apr-2026".toList [] ⟨2026, 3, 5, .none⟩ := by
    refine ⟨⟨by decide, isDate, by decide, clear_nil⟩, ?_⟩
    intro word' back' fields' stands
    have split : "31-Feb-2026 ".toList ++ ("05-Apr-2026".toList ++ []) =
        "31-Feb-2026 ".toList ++ (word' ++ back') := stands.split
    have same := List.append_cancel_left split
    obtain ⟨rfl, -⟩ := isDate.unique_of_name (Or.inl rfl) stands.isDate same
    exact Nat.le_refl _
  intro finds
  refine finds ⟨_, _, _, _, _, occurs, ?_⟩ none
  exact DateFields.timestamp_isSome_iff.mp (by decide)

end BirrTrack.Processing
