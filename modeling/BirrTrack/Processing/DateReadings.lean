import BirrTrack.Processing.DateMatches

/-! # What each date format reads

Each format reads its first date and no other (`tryParse_eq_some_iff`): it finds the
leftmost text of its grammar, with the longest time of day that stands there, and answers
with the timestamp of the numbers this prints, if they pass its checks.
-/

namespace BirrTrack.Processing

open Js Backtracking Pattern

namespace DateFormat

def pattern : DateFormat → Pattern
  | dayMonthNameYear => Processing.dayMonthNameYear
  | monthNameDayYear => Processing.monthNameDayYear
  | yearMonthDay => Processing.yearMonthDay
  | numericDelimitedDate => Processing.numericDelimitedDate

def tryParse : DateFormat → List Char → Option String
  | dayMonthNameYear => tryParseDayMonthNameYear
  | monthNameDayYear => tryParseMonthNameDayYear
  | yearMonthDay => tryParseYearMonthDay
  | numericDelimitedDate => tryParseNumericDelimitedDate

/-- What a format makes of a match. -/
def read (m : Cursor) : DateFormat → Option String
  | dayMonthNameYear => do
      let day := parseInt m 1
      let monthIndex ← monthNameToIndex ((m.text 2).getD [])
      let year := parseInt m 3
      if isReasonableYMD year monthIndex day then toIsoUtcMidnight year monthIndex day else none
  | monthNameDayYear => do
      let monthIndex ← monthNameToIndex ((m.text 1).getD [])
      let day := parseInt m 2
      let year := parseInt m 3
      if isReasonableYMD year monthIndex day then toIsoUtcMidnight year monthIndex day else none
  | yearMonthDay => toIsoWithTime m (parseInt m 1) (parseInt m 2 - 1) (parseInt m 3)
  | numericDelimitedDate =>
      let (day, monthIndex) := dayAndMonthIndex (parseInt m 1) (parseInt m 2)
      toIsoWithTime m (parseInt m 3) monthIndex day

/-- A format reads the first match of its pattern. -/
theorem tryParse_eq (format : DateFormat) (text : List Char) :
    format.tryParse text = (format.pattern.exec text).bind fun m => format.read m := by
  cases format <;> rfl

end DateFormat

/-- The formats are tried in turn. -/
theorem extractTimestampFromText_eq (text : List Char) :
    extractTimestampFromText text = (DateFormat.dayMonthNameYear.tryParse text).or
      ((DateFormat.monthNameDayYear.tryParse text).or
        ((DateFormat.yearMonthDay.tryParse text).or
          (DateFormat.numericDelimitedDate.tryParse text))) := rfl

/-! ## Matches are dates -/

section Matches

variable {format : DateFormat} {before text rest word : List Char} {final : Cursor}
  {fields : DateFields}

/-- A recorded number is read as its value. -/
theorem parseInt_of_text {m : Cursor} {index : ℕ} (recorded : m.text index = some word) :
    parseInt m index = Decimal.value word := by
  rw [parseInt, recorded, Option.getD_some]

/-- A match is a date, apart from other words, and the timestamp is made of its numbers. -/
theorem exists_dateText_of_mem_run
    (member : final ∈ format.pattern.run (.start before text)) :
    ∃ word fields, text = word ++ final.rest ∧ DateText format word fields ∧ Clear before ∧
      Clear final.rest ∧ format.read final = fields.timestamp := by
  cases format with
  | dayMonthNameYear =>
      obtain ⟨day, c, name, d, year, index, rfl, isDay, marked, isMonth, marked', isYear,
        clearBefore, clearAfter, dayText, nameText, yearText⟩ := mem_run_dayMonthNameYear member
      refine ⟨_, _, ?_, .dayMonthNameYear isDay marked isMonth marked' isYear, clearBefore,
        clearAfter, ?_⟩
      · simp only [List.append_assoc, List.cons_append]
      · simp only [DateFormat.read, parseInt_of_text dayText, parseInt_of_text yearText, nameText,
          Option.getD_some, monthNameToIndex_eq isMonth, Option.bind_eq_bind, Option.bind_some,
          DateFields.timestamp]
  | monthNameDayYear =>
      obtain ⟨name, mark, blanks, day, ordinal, separators, year, index, rfl, isMonth, marked,
        some, blank, isDay, isOrdinal, some', separated, isYear, clearBefore, clearAfter, nameText,
        dayText, yearText⟩ := mem_run_monthNameDayYear member
      refine ⟨_, _, ?_, .monthNameDayYear isMonth marked some blank isDay isOrdinal some' separated
        isYear, clearBefore, clearAfter, ?_⟩
      · simp only [List.append_assoc]
      · simp only [DateFormat.read, parseInt_of_text dayText, parseInt_of_text yearText, nameText,
          Option.getD_some, monthNameToIndex_eq isMonth, Option.bind_eq_bind, Option.bind_some,
          DateFields.timestamp]
  | yearMonthDay =>
      obtain ⟨year, c, month, d, day, time, clock, rfl, isYear, marked, isMonth, marked', isDay,
        isTime, clearBefore, clearAfter, yearText, monthText, dayText, records⟩ :=
        mem_run_threeNumbers (counts_times 4) (counts_between (by decide))
          (counts_between (by decide)) member
      refine ⟨_, _, ?_, .yearMonthDay isYear marked isMonth marked' isDay isTime, clearBefore,
        clearAfter, ?_⟩
      · simp only [List.append_assoc, List.cons_append]
      · simp only [DateFormat.read, toIsoWithTime_eq records, parseInt_of_text dayText,
          parseInt_of_text monthText, parseInt_of_text yearText]
  | numericDelimitedDate =>
      obtain ⟨a, c, b, d, year, time, clock, rfl, isFirst, marked, isSecond, marked', isYear,
        isTime, clearBefore, clearAfter, firstText, secondText, yearText, records⟩ :=
        mem_run_threeNumbers (counts_between (by decide)) (counts_between (by decide))
          (counts_times 4) member
      refine ⟨_, _, ?_, .numericDelimitedDate isFirst marked isSecond marked' isYear isTime,
        clearBefore, clearAfter, ?_⟩
      · simp only [List.append_assoc, List.cons_append]
      · simp only [DateFormat.read, toIsoWithTime_eq records, parseInt_of_text firstText,
          parseInt_of_text secondText, parseInt_of_text yearText]

/-- Every date apart from other words is matched. -/
theorem DateText.exists_mem_run (isDate : DateText format word fields)
    (clearBefore : Clear before) (clearAfter : Clear rest) :
    ∃ final ∈ format.pattern.run (.start before (word ++ rest)), final.rest = rest := by
  cases isDate with
  | dayMonthNameYear isDay marked isMonth marked' isYear =>
      have found := exists_mem_run_dayMonthNameYear isDay marked isMonth marked' isYear clearBefore
        clearAfter
      simp only [List.append_assoc, List.cons_append]
      exact found
  | monthNameDayYear isMonth marked some blank isDay isOrdinal some' separated isYear =>
      have found := exists_mem_run_monthNameDayYear isMonth marked some blank isDay isOrdinal some'
        separated isYear clearBefore clearAfter
      simp only [List.append_assoc]
      exact found
  | yearMonthDay isYear marked isMonth marked' isDay isTime =>
      have found := exists_mem_run_threeNumbers (counts_times 4) (counts_between (by decide))
        (counts_between (by decide)) isYear marked isMonth marked' isDay isTime clearBefore
        clearAfter
      simp only [List.append_assoc, List.cons_append]
      exact found
  | numericDelimitedDate isFirst marked isSecond marked' isYear isTime =>
      have found := exists_mem_run_threeNumbers (counts_between (by decide))
        (counts_between (by decide)) (counts_times 4) isFirst marked isSecond marked' isYear isTime
        clearBefore clearAfter
      simp only [List.append_assoc, List.cons_append]
      exact found

end Matches

/-! ## Texts print one date -/

section Unique

variable {least most least' most' : ℕ} {c : Char} {word rest word' rest' : List Char}
  {separates : Char → Bool}

/-- Runs of digits before something else are the same. -/
theorem Digits.split (digits : Digits least most word) (digits' : Digits least' most' word')
    (same : word ++ rest = word' ++ rest') (stops : ∀ c ∈ rest.head?, c.isDigit = false)
    (stops' : ∀ c ∈ rest'.head?, c.isDigit = false) : word = word' ∧ rest = rest' :=
  split_unique same digits.2.2 digits'.2.2 stops stops'

/-- Two runs of the same number of digits at the same place are one. -/
theorem Digits.split_fixed (digits : Digits least least word) (digits' : Digits least least word')
    (same : word ++ rest = word' ++ rest') : word = word' ∧ rest = rest' :=
  List.append_inj same ((Nat.le_antisymm digits.2.1 digits.1).trans
    (Nat.le_antisymm digits'.1 digits'.2.1))

/-- What accepts no digit stops before a run of digits. -/
theorem Digits.stops (digits : Digits (least + 1) most word) {accepts : Char → Bool}
    (apart : ∀ c, accepts c = true → c.isDigit = false) :
    ∀ c ∈ (word ++ rest).head?, accepts c = false := by
  obtain ⟨c, tail, rfl, isDigit⟩ := digits.exists_cons
  refine stops_cons ?_
  by_contra accepted
  rw [apart c (by simpa only [Bool.not_eq_false] using accepted)] at isDigit
  cases isDigit

/-- A text stands for one number of seconds. -/
theorem SecondText.unique {text : List Char} {second second' : ℤ}
    (isSecond : SecondText text second) (isSecond' : SecondText text second') :
    second = second' := by
  cases isSecond with
  | none => cases isSecond' with | none => rfl
  | colon digits => cases isSecond' with | colon digits' => rfl

/-- A time prints one time of day. -/
theorem TimeText.unique {time : List Char} {clock clock' : Option ClockFields}
    (apart : ∀ c, separates c = true → c.isDigit = false) (isTime : TimeText separates time clock)
    (isTime' : TimeText separates time clock') : clock = clock' := by
  cases isTime with
  | none =>
      generalize empty : ([] : List Char) = text at isTime'
      cases isTime' with
      | none => rfl
      | clock some => exact absurd (List.append_eq_nil_iff.mp empty.symm).1 some
  | @clock separators hour minute seconds second some separated isHour isMinute isSecond =>
      generalize same : separators ++ (hour ++ ':' :: (minute ++ seconds)) = text at isTime'
      cases isTime' with
      | none => exact absurd (List.append_eq_nil_iff.mp same).1 some
      | clock some' separated' isHour' isMinute' isSecond' =>
          have colon : Char.isDigit ':' = false := by decide
          obtain ⟨rfl, hours⟩ := split_unique same separated separated' (isHour.stops apart)
            (isHour'.stops apart)
          obtain ⟨rfl, minutes⟩ := isHour.split isHour' hours (stops_cons colon) (stops_cons colon)
          obtain ⟨rfl, rfl⟩ := isMinute.split_fixed isMinute' (List.cons.inj minutes).2
          rw [isSecond.unique isSecond']

/-- A time begins with a separator. -/
theorem TimeText.stops {time : List Char} {clock : Option ClockFields}
    (apart : ∀ c, separates c = true → c.isDigit = false) (isTime : TimeText separates time clock) :
    ∀ c ∈ time.head?, c.isDigit = false := by
  cases isTime with
  | none => exact fun _ absent => nomatch absent
  | clock some separated =>
      obtain ⟨c, tail, rfl⟩ := List.exists_cons_of_ne_nil some
      exact stops_cons (apart c (separated c List.mem_cons_self))

/-- Month names before something else are the same. -/
theorem NamesMonth.split {name name' : List Char} {index index' : ℕ}
    (names : NamesMonth name index) (names' : NamesMonth name' index')
    (same : name ++ rest = name' ++ rest') (stops : ∀ c ∈ rest.head?, c.toLower.isLower = false)
    (stops' : ∀ c ∈ rest'.head?, c.toLower.isLower = false) :
    name = name' ∧ rest = rest' ∧ index = index' := by
  obtain ⟨rfl, back⟩ := split_unique same names.isLetter names'.isLetter stops stops'
  exact ⟨rfl, back, names.unique names'⟩

/-- An ordinal ending is made of letters. -/
theorem IsOrdinal.isLetter {ordinal : List Char} (isOrdinal : IsOrdinal ordinal) :
    ∀ c ∈ ordinal, IsLetter c := by
  have all : ∀ word ∈ ["st", "nd", "rd", "th"], ∀ c ∈ word.toList, c.isLower = true := by decide
  obtain ⟨word, listed, spelt⟩ := List.mem_map.mp isOrdinal
  intro c inside
  apply all word listed
  rw [spelt]
  exact List.mem_map_of_mem inside

/-- So is one that may be missing. -/
theorem isLetter_of_mem_ordinal {ordinal : List Char}
    (isOrdinal : ordinal = [] ∨ IsOrdinal ordinal) : ∀ c ∈ ordinal, IsLetter c := by
  rcases isOrdinal with rfl | isOrdinal
  · exact fun _ absent => nomatch absent
  · exact isOrdinal.isLetter

/-- A mark that may be missing is made of delimiters. -/
theorem isDelimiter_of_mem_mark {mark : List Char}
    (marked : mark = [] ∨ ∃ c, isDelimiter c = true ∧ mark = [c]) :
    ∀ c ∈ mark, isDelimiter c = true := by
  rcases marked with rfl | ⟨d, isDelimiter, rfl⟩
  · exact fun _ absent => nomatch absent
  · intro c member
    rwa [List.mem_singleton.mp member]

/-- Of the formats with a month's name at most one date begins at a place. -/
theorem DateText.unique_of_name {format : DateFormat} {fields fields' : DateFields}
    (isNamed : format = .dayMonthNameYear ∨ format = .monthNameDayYear)
    (isDate : DateText format word fields) (isDate' : DateText format word' fields')
    (same : word ++ rest = word' ++ rest') : word = word' ∧ fields = fields' := by
  cases isDate with
  | @dayMonthNameYear day name year index c d isDay marked isMonth marked' isYear =>
      cases isDate' with
      | @dayMonthNameYear day₂ name₂ year₂ index₂ c₂ d₂ isDay₂ marked₂ isMonth₂ marked₂' isYear₂ =>
          simp only [List.append_assoc, List.cons_append] at same
          obtain ⟨rfl, afterDay⟩ := isDay.split isDay₂ same
            (stops_cons (isDigit_of_isDelimiter marked))
            (stops_cons (isDigit_of_isDelimiter marked₂))
          obtain ⟨rfl, names⟩ := List.cons.inj afterDay
          obtain ⟨rfl, afterName, rfl⟩ := isMonth.split isMonth₂ names
            (stops_cons (isLower_of_isDelimiter marked'))
            (stops_cons (isLower_of_isDelimiter marked₂'))
          obtain ⟨rfl, years⟩ := List.cons.inj afterName
          obtain ⟨rfl, -⟩ := isYear.split_fixed isYear₂ years
          exact ⟨rfl, rfl⟩
  | @monthNameDayYear name mark blanks day ordinal separators year index isMonth marked some blank
      isDay isOrdinal some' separated isYear =>
      cases isDate' with
      | @monthNameDayYear name₂ mark₂ blanks₂ day₂ ordinal₂ separators₂ year₂ index₂ isMonth₂
          marked₂ some₂ blank₂ isDay₂ isOrdinal₂ some₂' separated₂ isYear₂ =>
          simp only [List.append_assoc] at same
          have marks : ∀ c ∈ mark, isDelimiter c = true := isDelimiter_of_mem_mark marked
          have marks₂ : ∀ c ∈ mark₂, isDelimiter c = true := isDelimiter_of_mem_mark marked₂
          have letters := isLetter_of_mem_ordinal isOrdinal
          have letters₂ := isLetter_of_mem_ordinal isOrdinal₂
          obtain ⟨rfl, afterName, rfl⟩ := isMonth.split isMonth₂ same
            (stops_append (fun c member => isLower_of_isDelimiter (marks c member))
              (stops_of_ne_nil some fun c member => isLower_of_isSpace (blank c member)))
            (stops_append (fun c member => isLower_of_isDelimiter (marks₂ c member))
              (stops_of_ne_nil some₂ fun c member => isLower_of_isSpace (blank₂ c member)))
          obtain ⟨rfl, afterMark⟩ := split_unique afterName marks marks₂
            (stops_of_ne_nil some fun c member => isDelimiter_of_isSpace (blank c member))
            (stops_of_ne_nil some₂ fun c member => isDelimiter_of_isSpace (blank₂ c member))
          obtain ⟨rfl, afterBlanks⟩ := split_unique afterMark blank blank₂
            (isDay.stops fun c => isDigit_of_isSpace) (isDay₂.stops fun c => isDigit_of_isSpace)
          obtain ⟨rfl, afterDay⟩ := isDay.split isDay₂ afterBlanks
            (stops_append (fun c member => isDigit_of_isLetter (letters c member))
              (stops_of_ne_nil some' fun c member =>
                isDigit_of_isYearSeparator (separated c member)))
            (stops_append (fun c member => isDigit_of_isLetter (letters₂ c member))
              (stops_of_ne_nil some₂' fun c member =>
                isDigit_of_isYearSeparator (separated₂ c member)))
          obtain ⟨rfl, afterOrdinal⟩ := split_unique afterDay letters letters₂
            (stops_of_ne_nil some' fun c member => isLower_of_isYearSeparator (separated c member))
            (stops_of_ne_nil some₂' fun c member =>
              isLower_of_isYearSeparator (separated₂ c member))
          obtain ⟨rfl, years⟩ := split_unique afterOrdinal separated separated₂
            (isYear.stops fun c => isDigit_of_isYearSeparator)
            (isYear₂.stops fun c => isDigit_of_isYearSeparator)
          obtain ⟨rfl, -⟩ := isYear.split_fixed isYear₂ years
          exact ⟨rfl, rfl⟩
  | yearMonthDay => rcases isNamed with impossible | impossible <;> cases impossible
  | numericDelimitedDate => rcases isNamed with impossible | impossible <;> cases impossible

/-- Two numbers with their delimiters can be read in one way. -/
theorem twoNumbers_split {a b a' b' : List Char} {c d c' d' : Char}
    (isFirst : Digits least most a) (marked : isDelimiter c = true) (isSecond : Digits 1 2 b)
    (marked' : isDelimiter d = true) (isFirst' : Digits least' most' a')
    (marked₂ : isDelimiter c' = true) (isSecond' : Digits 1 2 b') (marked₂' : isDelimiter d' = true)
    (same : a ++ c :: (b ++ d :: rest) = a' ++ c' :: (b' ++ d' :: rest')) :
    a = a' ∧ c = c' ∧ b = b' ∧ d = d' ∧ rest = rest' := by
  obtain ⟨rfl, afterFirst⟩ := isFirst.split isFirst' same
    (stops_cons (isDigit_of_isDelimiter marked)) (stops_cons (isDigit_of_isDelimiter marked₂))
  obtain ⟨rfl, seconds⟩ := List.cons.inj afterFirst
  obtain ⟨rfl, afterSecond⟩ := isSecond.split isSecond' seconds
    (stops_cons (isDigit_of_isDelimiter marked')) (stops_cons (isDigit_of_isDelimiter marked₂'))
  obtain ⟨rfl, rests⟩ := List.cons.inj afterSecond
  exact ⟨rfl, rfl, rfl, rfl, rests⟩

/-- A text prints one date of a format. -/
theorem DateText.unique {format : DateFormat} {fields fields' : DateFields}
    (isDate : DateText format word fields) (isDate' : DateText format word fields') :
    fields = fields' := by
  generalize same : word = other at isDate'
  cases format with
  | dayMonthNameYear =>
      exact (isDate.unique_of_name (Or.inl rfl) isDate' (congrArg (· ++ []) same)).2
  | monthNameDayYear =>
      exact (isDate.unique_of_name (Or.inr rfl) isDate' (congrArg (· ++ []) same)).2
  | yearMonthDay =>
      cases isDate with
      | yearMonthDay isYear marked isMonth marked' isDay isTime =>
          cases isDate' with
          | yearMonthDay isYear₂ marked₂ isMonth₂ marked₂' isDay₂ isTime₂ =>
              obtain ⟨rfl, -, rfl, -, days⟩ := twoNumbers_split isYear marked isMonth marked'
                isYear₂ marked₂ isMonth₂ marked₂' same
              obtain ⟨rfl, rfl⟩ := isDay.split isDay₂ days
                (isTime.stops fun _ => isDigit_of_isTimeSeparator)
                (isTime₂.stops fun _ => isDigit_of_isTimeSeparator)
              rw [isTime.unique (fun _ => isDigit_of_isTimeSeparator) isTime₂]
  | numericDelimitedDate =>
      cases isDate with
      | numericDelimitedDate isFirst marked isSecond marked' isYear isTime =>
          cases isDate' with
          | numericDelimitedDate isFirst₂ marked₂ isSecond₂ marked₂' isYear₂ isTime₂ =>
              obtain ⟨rfl, -, rfl, -, years⟩ := twoNumbers_split isFirst marked isSecond marked'
                isFirst₂ marked₂ isSecond₂ marked₂' same
              obtain ⟨rfl, rfl⟩ := isYear.split_fixed isYear₂ years
              rw [isTime.unique (fun _ => isDigit_of_isSpace) isTime₂]

end Unique

/-! ## The longest time of day -/

section Longest

variable {first second third part : Pattern} {least most least₁ most₁ least₂ most₂ least₃ most₃ : ℕ}
  {separates : Char → Bool}

/-- Of two times of day that begin at one place the longer one is tried first. -/
theorem longestFirst_clock : LongestFirst clock := by
  obtain ⟨twoDigits, width⟩ := times_char_greedy Char.isDigit 2
  have colon : FixedWidth (lit ':') 1 := fixedWidth_char _
  have seconds : LongestFirst (opt (seq (lit ':') (group 6 (times 2 digit)))) := by
    refine LongestFirst.opt_of_shorter
      ((longestFirst_char _).fixed_seq colon (twoDigits.group 6)) ?_
    intro cursor next member
    have taken := colon.seq (width.group 6) cursor next member
    omega
  have minutes := (twoDigits.group 5).fixed_seq (width.group 5) seconds
  have hours := (longestFirst_between_char Char.isDigit 1 2).group 4
  have passes : (group 4 (between 1 2 digit)).Over fun c => c.isDigit = true :=
    ⟨⟨fun _ => id, trivial⟩, ⟨⟨fun _ => id, trivial⟩, trivial⟩⟩
  refine hours.class_seq passes ((longestFirst_char _).fixed_seq colon minutes)
    (opens_char _).seq ?_
  intro c same
  rw [of_decide_eq_true same]
  decide

/-- So it is when the time may be missing. -/
theorem longestFirst_time (apart : ∀ c, separates c = true → c.isDigit = false) :
    LongestFirst (seq (opt (seq (plus (char separates)) clock)) boundary) := by
  have opens : clock.Opens Char.isDigit := by
    refine Opens.seq (Opens.group 4 ?_)
    exact ((opens_char Char.isDigit).seq : (times 1 digit).Opens Char.isDigit).seq
  have passes : (plus (char separates)).Over fun c => separates c = true :=
    ⟨⟨fun _ => id, trivial⟩, fun _ => id⟩
  have timed : LongestFirst (seq (plus (char separates)) clock) := by
    refine (longestFirst_plus_char separates).class_seq passes longestFirst_clock opens ?_
    intro c isDigit
    by_contra separated
    rw [apart c (by simpa only [Bool.not_eq_false] using separated)] at isDigit
    cases isDigit
  refine (LongestFirst.opt_of_shorter timed ?_).seq_fixed longestFirst_boundary fixedWidth_boundary
  intro cursor next member
  obtain ⟨middle, reached, taken⟩ := mem_run_seq.mp member
  obtain ⟨word, rest, split, some, -, rfl⟩ := mem_run_plus.mp reached
  have longer := List.length_pos_iff.mpr some
  have shorter : next.rest.length ≤ rest.length := length_rest_le taken
  rw [split, List.length_append]
  omega

/-- No time follows a digit inside a number. -/
theorem run_time_eq_nil (apart : ∀ c, separates c = true → c.isDigit = false) {cursor : Cursor}
    {c d : Char} {front back : List Char} (before : cursor.before = c :: front)
    (rest : cursor.rest = d :: back) (isDigit : c.isDigit = true) (isDigit' : d.isDigit = true) :
    (seq (opt (seq (plus (char separates)) clock)) boundary).run cursor = [] := by
  rw [List.eq_nil_iff_forall_not_mem]
  intro final member
  obtain ⟨middle, timed, ended⟩ := mem_run_seq.mp member
  rcases mem_run_opt.mp timed with taken | rfl
  · obtain ⟨next, reached, -⟩ := mem_run_seq.mp taken
    obtain ⟨word, left, split, some, separated, -⟩ := mem_run_plus.mp reached
    obtain ⟨x, word, rfl⟩ := List.exists_cons_of_ne_nil some
    obtain rfl : d = x := (List.cons.inj (rest.symm.trans split)).1
    rw [apart d (separated d List.mem_cons_self)] at isDigit'
    cases isDigit'
  · obtain ⟨-, edge⟩ := mem_run_boundary.mp ended
    rw [before, rest, atBoundary_after (isWordChar_of_isDigit isDigit), clear_cons,
      isWordChar_of_isDigit isDigit'] at edge
    cases edge

/-- Of two readings of three numbers at one place the longer one is tried first. -/
theorem longestFirst_threeNumbers (counts₁ : Counts first (least₁ + 1) most₁)
    (counts₂ : Counts second least₂ most₂) (counts₃ : Counts third (least₃ + 1) most₃)
    (over₁ : first.Over fun c => c.isDigit = true) (over₂ : second.Over fun c => c.isDigit = true)
    (apart : ∀ c, separates c = true → c.isDigit = false) :
    LongestFirst (threeNumbers first second third separates) := by
  have delimited : ∀ {back : Pattern}, LongestFirst back →
      LongestFirst (seq delimiter back) ∧ (seq delimiter back).Opens isDelimiter := by
    intro back longest
    exact ⟨(longestFirst_char _).fixed_seq (fixedWidth_char _) longest, (opens_char _).seq⟩
  have outside : ∀ c, isDelimiter c = true → c.isDigit = false := fun _ => isDigit_of_isDelimiter
  have last : LongestFirst (seq (group 3 third)
      (seq (opt (seq (plus (char separates)) clock)) boundary)) := by
    refine (counts₃.longest.group 3).seq_of_fails (longestFirst_time apart) ?_
    intro cursor longer member shorter member' less
    obtain ⟨before, text, groups⟩ := cursor
    obtain ⟨word, rest, split, digits, rfl⟩ := counts₃.mem_group.mp member
    obtain ⟨word', rest', split', digits', rfl⟩ := counts₃.mem_group.mp member'
    have total := congrArg List.length (split.symm.trans split')
    rw [List.length_append, List.length_append] at total
    obtain ⟨between, rfl, rfl⟩ := exists_between (split'.symm.trans split) (by
      simp only at less
      omega)
    obtain ⟨c, front, reversed, isDigit⟩ := digits'.reverse.exists_cons
    cases between with
    | nil => exact absurd less (lt_irrefl _)
    | cons d between =>
        exact run_time_eq_nil apart (congrArg (· ++ before) reversed) rfl isDigit
          (digits.2.2 d (List.mem_append_right _ List.mem_cons_self))
  obtain ⟨third', opens'⟩ := delimited last
  obtain ⟨second', opens⟩ := delimited ((counts₂.longest.group 2).class_seq over₂ third' opens'
    outside)
  exact longestFirst_boundary.fixed_seq fixedWidth_boundary
    ((counts₁.longest.group 1).class_seq over₁ second' opens outside)

/-- What a format finds first at a place is the longest date there. -/
theorem length_le_of_first {format : DateFormat} {before text : List Char} {final other : Cursor}
    (found : First format.pattern (.start before text) final)
    (member : other ∈ format.pattern.run (.start before text)) :
    final.rest.length ≤ other.rest.length := by
  have named : format = .dayMonthNameYear ∨ format = .monthNameDayYear →
      final.rest.length ≤ other.rest.length := by
    intro isNamed
    obtain ⟨word, fields, rfl, isDate, -⟩ :=
      exists_dateText_of_mem_run (List.mem_of_head? found)
    obtain ⟨word', fields', split, isDate', -⟩ := exists_dateText_of_mem_run member
    obtain ⟨rfl, -⟩ := isDate.unique_of_name isNamed isDate' split
    rw [List.append_cancel_left split]
  have ofYear : (times 4 digit).Over fun c => c.isDigit = true :=
    ⟨fun _ => id, fun _ => id, fun _ => id, fun _ => id, trivial⟩
  have ofNumber : (between 1 2 digit).Over fun c => c.isDigit = true :=
    ⟨⟨fun _ => id, trivial⟩, ⟨fun _ => id, trivial⟩, trivial⟩
  cases format with
  | dayMonthNameYear => exact named (Or.inl rfl)
  | monthNameDayYear => exact named (Or.inr rfl)
  | yearMonthDay =>
      exact (longestFirst_threeNumbers (counts_times 4) (counts_between (by decide))
        (counts_between (by decide)) ofYear ofNumber
        fun _ => isDigit_of_isTimeSeparator).length_le found member
  | numericDelimitedDate =>
      exact (longestFirst_threeNumbers (counts_between (by decide)) (counts_between (by decide))
        (counts_times 4) ofNumber ofNumber fun _ => isDigit_of_isSpace).length_le found member

end Longest

/-! ## The first date -/

section FirstDates

variable {format : DateFormat} {text front word back : List Char} {fields : DateFields}

/-- Where a date stands, the pattern matches. -/
theorem DateAt.exists_mem_run (stands : DateAt format text front word back fields) :
    ∃ final ∈ format.pattern.run (.start (front.reverse ++ []) (word ++ back)),
      final.rest = back := by
  rw [List.append_nil]
  exact stands.isDate.exists_mem_run stands.clearBefore stands.clearAfter

/-- A format finds its first date. -/
theorem firstDate_of_exec {m : Cursor} (found : format.pattern.exec text = some m) :
    ∃ fields, FirstDate format text fields ∧ format.read m = fields.timestamp := by
  obtain ⟨front, rest, rfl, first, earliest⟩ := scan_eq_some_iff.mp found
  obtain ⟨word, fields, rfl, isDate, clearBefore, clearAfter, read⟩ :=
    exists_dateText_of_mem_run (List.mem_of_head? first)
  rw [List.append_nil] at clearBefore
  refine ⟨fields, ⟨front, word, m.rest, ⟨rfl, isDate, clearBefore, clearAfter⟩, ?_⟩, read⟩
  intro front' word' back' fields' stands
  obtain ⟨final, member, rfl⟩ := stands.exists_mem_run
  refine ⟨?_, ?_⟩
  · by_contra shorter
    rw [earliest front' _ stands.split (Nat.lt_of_not_le shorter)] at member
    cases member
  · intro same
    obtain ⟨rfl, rest⟩ := List.append_inj stands.split same.symm
    rw [← rest] at member
    have longest := length_le_of_first first member
    have total := congrArg List.length rest
    rw [List.length_append, List.length_append] at total
    omega

/-- The pattern has no match exactly where no date stands in the text. -/
theorem exec_eq_none_iff : format.pattern.exec text = none ↔
    ∀ front word back fields, ¬ DateAt format text front word back fields := by
  rw [exec, scan_eq_none_iff]
  refine ⟨?_, ?_⟩
  · intro fails front word back fields stands
    obtain ⟨final, member, -⟩ := stands.exists_mem_run
    rw [fails front _ stands.split] at member
    cases member
  · intro absent front rest split
    rw [List.eq_nil_iff_forall_not_mem]
    intro final member
    obtain ⟨word, fields, rfl, isDate, clearBefore, clearAfter, -⟩ :=
      exists_dateText_of_mem_run member
    rw [List.append_nil] at clearBefore
    exact absent front word final.rest fields ⟨split, isDate, clearBefore, clearAfter⟩

/-- There is one first date at most. -/
theorem FirstDate.unique {fields' : DateFields} (first : FirstDate format text fields)
    (first' : FirstDate format text fields') : fields = fields' := by
  obtain ⟨front, word, back, stands, least⟩ := first
  obtain ⟨front', word', back', stands', least'⟩ := first'
  have le := least front' word' back' fields' stands'
  have ge := least' front word back fields stands
  have sameFront := Nat.le_antisymm ge.1 le.1
  obtain ⟨rfl, rest⟩ := List.append_inj (stands.split.symm.trans stands'.split) sameFront.symm
  obtain ⟨rfl, rfl⟩ := List.append_inj rest (Nat.le_antisymm (ge.2 rfl) (le.2 rfl))
  exact stands.isDate.unique stands'.isDate

/-- A format reads its first date. -/
theorem FirstDate.tryParse_eq (first : FirstDate format text fields) :
    format.tryParse text = fields.timestamp := by
  obtain ⟨front, word, back, stands, -⟩ := id first
  rw [DateFormat.tryParse_eq]
  cases found : format.pattern.exec text with
  | none => exact absurd stands (exec_eq_none_iff.mp found front word back fields)
  | some m =>
      obtain ⟨fields', first', read⟩ := firstDate_of_exec found
      rw [first.unique first', ← read, Option.bind_some]

/-- A format reads nothing in a text without its dates. -/
theorem tryParse_eq_none_of_absent
    (absent : ∀ front word back fields, ¬ DateAt format text front word back fields) :
    format.tryParse text = none := by
  rw [DateFormat.tryParse_eq, exec_eq_none_iff.mpr absent, Option.bind_none]

/-- What a format reads is the timestamp of its first date. -/
theorem tryParse_eq_some_iff {timestamp : String} :
    format.tryParse text = some timestamp ↔
      ∃ fields, FirstDate format text fields ∧ fields.timestamp = some timestamp := by
  refine ⟨?_, ?_⟩
  · intro found
    rw [DateFormat.tryParse_eq] at found
    obtain ⟨m, matched, read⟩ := Option.bind_eq_some_iff.mp found
    obtain ⟨fields, first, same⟩ := firstDate_of_exec matched
    exact ⟨fields, first, same.symm.trans read⟩
  · intro found
    obtain ⟨fields, first, same⟩ := found
    rw [first.tryParse_eq, same]

/-- A format reads something exactly when its first date is a valid one. -/
theorem tryParse_isSome_iff : (format.tryParse text).isSome = true ↔
    ∃ fields, FirstDate format text fields ∧ fields.Valid := by
  simp only [Option.isSome_iff_exists, tryParse_eq_some_iff, ← DateFields.timestamp_isSome_iff]
  exact ⟨fun ⟨r, fields, first, same⟩ => ⟨fields, first, r, same⟩,
    fun ⟨fields, first, r, same⟩ => ⟨r, fields, first, same⟩⟩

end FirstDates

end BirrTrack.Processing
