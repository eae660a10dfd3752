import BirrTrack.Processing.Timestamps

/-! # Printed dates in any context

A date in any of the supported renderings, between texts without digits, is read as its
midnight (`extractTimestampFromText_rendering`). What begins and ends with a digit lies inside the
rendering (`exists_inside`), so the formats that are tried earlier find nothing there: the
rendering lacks their letters, blanks or delimiters.
-/

namespace BirrTrack.Processing

open Js Backtracking Pattern

/-- A year in four digits. -/
def PrintsYear (year : List Char) (n : ℤ) : Prop := Digits 4 4 year ∧ (Decimal.value year : ℤ) = n

/-- A day or a month in one or two digits. -/
def PrintsNumber (text : List Char) (n : ℕ) : Prop := Digits 1 2 text ∧ Decimal.value text = n

/-- The supported renderings of a date; months are counted from zero. -/
inductive Rendering (date : Calendar.Date) : List Char → Prop where
  /-- `D-Mon-YYYY` -/
  | dayMonthName {day name year : List Char} {c d : Char} (isDay : PrintsNumber day date.day)
      (marked : isDelimiter c = true) (isMonth : NamesMonth name date.month)
      (marked' : isDelimiter d = true) (isYear : PrintsYear year date.year) :
      Rendering date (day ++ c :: (name ++ d :: year))
  /-- `Month D, YYYY` -/
  | monthName {name day ordinal year : List Char} (isMonth : NamesMonth name date.month)
      (isDay : PrintsNumber day date.day) (isOrdinal : ordinal = [] ∨ IsOrdinal ordinal)
      (isYear : PrintsYear year date.year) :
      Rendering date (name ++ ' ' :: (day ++ (ordinal ++ ',' :: ' ' :: year)))
  /-- `Y-M-D` -/
  | yearMonthDay {year month day : List Char} {c d : Char} (isYear : PrintsYear year date.year)
      (marked : isDelimiter c = true) (isMonth : PrintsNumber month (date.month + 1))
      (marked' : isDelimiter d = true) (isDay : PrintsNumber day date.day) :
      Rendering date (year ++ c :: (month ++ d :: day))
  /-- `D/M/Y` -/
  | dayMonthYear {day month year : List Char} {c d : Char} (isDay : PrintsNumber day date.day)
      (marked : isDelimiter c = true) (isMonth : PrintsNumber month (date.month + 1))
      (marked' : isDelimiter d = true) (isYear : PrintsYear year date.year) :
      Rendering date (day ++ c :: (month ++ d :: year))
  /-- `M/D/Y` -/
  | monthDayYear {month day year : List Char} {c d : Char} (large : 12 < date.day)
      (isMonth : PrintsNumber month (date.month + 1)) (marked : isDelimiter c = true)
      (isDay : PrintsNumber day date.day) (marked' : isDelimiter d = true)
      (isYear : PrintsYear year date.year) :
      Rendering date (month ++ c :: (day ++ d :: year))

/-! ## What begins and ends with a digit -/

section Inside

variable {p a s front word back : List Char}

/-- The text begins and ends with a digit. -/
structure DigitEnds (word : List Char) : Prop where
  begins : ∃ c tail, word = c :: tail ∧ c.isDigit = true
  ends : ∃ c tail, word.reverse = c :: tail ∧ c.isDigit = true

/-- It lies inside a text whose surroundings have no digits. -/
theorem DigitEnds.exists_inside (ends : DigitEnds word)
    (split : p ++ (a ++ s) = front ++ (word ++ back)) (noDigit : ∀ c ∈ p, c.isDigit = false)
    (noDigit' : ∀ c ∈ s, c.isDigit = false) :
    ∃ u v, front = p ++ u ∧ a = u ++ (word ++ v) ∧ back = v ++ s := by
  obtain ⟨⟨c, tail, rfl, isDigit⟩, d, front', reversed, isDigit'⟩ := ends
  have after : p.length ≤ front.length := by
    by_contra shorter
    obtain ⟨between, rfl, rest⟩ := exists_between split.symm (Nat.le_of_not_le shorter)
    cases between with
    | nil => exact shorter (by rw [List.append_nil])
    | cons x between =>
        obtain rfl : c = x := (List.cons.inj rest).1
        rw [noDigit c (List.mem_append_right _ List.mem_cons_self)] at isDigit
        cases isDigit
  obtain ⟨u, rfl, inner⟩ := exists_between split after
  rw [← List.append_assoc] at inner
  have before : (u ++ c :: tail).length ≤ a.length := by
    by_contra longer
    obtain ⟨between, whole, rfl⟩ := exists_between inner (Nat.le_of_not_le longer)
    rcases List.eq_nil_or_concat between with rfl | ⟨between, x, rfl⟩
    · exact longer (by rw [whole, List.append_nil])
    · have last := congrArg List.reverse whole
      simp only [List.reverse_append, reversed, List.concat_eq_append, List.reverse_singleton,
        List.cons_append, List.nil_append] at last
      obtain rfl : d = x := (List.cons.inj last).1
      rw [noDigit' d (by simp)] at isDigit'
      cases isDigit'
  obtain ⟨v, rfl, rfl⟩ := exists_between inner.symm before
  exact ⟨u, v, rfl, List.append_assoc _ _ _, rfl⟩

theorem digitEnds_append {middle : List Char}
    (begins : ∃ c tail, front = c :: tail ∧ c.isDigit = true)
    (ends : ∃ c tail, back.reverse = c :: tail ∧ c.isDigit = true) :
    DigitEnds (front ++ (middle ++ back)) := by
  obtain ⟨c, tail, rfl, isDigit⟩ := begins
  obtain ⟨d, tail', reversed, isDigit'⟩ := ends
  refine ⟨⟨c, _, rfl, isDigit⟩, d, tail' ++ (middle.reverse ++ (c :: tail).reverse), ?_, isDigit'⟩
  rw [List.reverse_append, List.reverse_append, reversed, List.append_assoc, List.cons_append]

end Inside

/-! ## Formats that find nothing -/

section Absent

variable {p s a x y z : List Char} {c d : Char} {least most least' : ℕ}

/-- There is no month's name, or no delimiter, between the digits. -/
theorem dayMonthNameYear_absent (noDigit : ∀ c ∈ p, c.isDigit = false)
    (noDigit' : ∀ c ∈ s, c.isDigit = false)
    (lacks : (∀ c ∈ a, ¬ IsLetter c) ∨ ∀ c ∈ a, isDelimiter c = false) :
    DateFormat.dayMonthNameYear.tryParse (p ++ (a ++ s)) = none := by
  apply tryParse_eq_none_of_absent
  intro front word back fields stands
  obtain ⟨split, isDate, -, -⟩ := stands
  cases isDate with
  | @dayMonthNameYear day name year index e f isDay marked isMonth _ isYear =>
      have ends : DigitEnds (day ++ e :: (name ++ f :: year)) := by
        have ends := @digitEnds_append day year (e :: (name ++ [f])) isDay.exists_cons
          isYear.reverse.exists_cons
        simpa only [List.cons_append, List.append_assoc, List.nil_append] using ends
      obtain ⟨u, v, -, rfl, -⟩ := ends.exists_inside split noDigit noDigit'
      rcases lacks with noLetter | noDelimiter
      · obtain ⟨letter, tail, rfl⟩ := List.exists_cons_of_ne_nil isMonth.ne_nil
        exact noLetter letter (by simp) (isMonth.isLetter letter List.mem_cons_self)
      · rw [noDelimiter e (by simp)] at marked
        cases marked

/-- No blank stands among numbers and delimiters. -/
theorem isSpace_of_mem_numbers (isFirst : ∀ b ∈ x, b.isDigit = true)
    (marked : isDelimiter c = true) (isSecond : ∀ b ∈ y, b.isDigit = true)
    (marked' : isDelimiter d = true) (isThird : ∀ b ∈ z, b.isDigit = true) :
    ∀ b ∈ x ++ c :: (y ++ d :: z), isSpace b = false := by
  have ofDigit := @eq_false_of_apart isSpace Char.isDigit fun _ => isDigit_of_isSpace
  intro b member
  simp only [List.mem_append, List.mem_cons] at member
  rcases member with first | rfl | second | rfl | third
  · exact ofDigit (isFirst b first)
  · exact isSpace_of_isDelimiter marked
  · exact ofDigit (isSecond b second)
  · exact isSpace_of_isDelimiter marked'
  · exact ofDigit (isThird b third)

/-- What ends with a blank does not end inside a text without one. -/
theorem eq_nil_of_blank_before {u before blanks : List Char} (some : blanks ≠ [])
    (blank : ∀ b ∈ blanks, isSpace b = true) (noBlank : ∀ b ∈ u, isSpace b = false)
    (same : before ++ blanks = p ++ u) : u = [] := by
  rcases List.eq_nil_or_concat u with rfl | ⟨u, b, rfl⟩
  · rfl
  · obtain ⟨blanks, b', rfl⟩ := (List.eq_nil_or_concat blanks).resolve_left some
    have last := congrArg List.getLast? same
    simp only [List.concat_eq_append, ← List.append_assoc, List.getLast?_append,
      List.getLast?_singleton, Option.some_or, Option.some.injEq] at last
    have isBlank := blank b' (by simp)
    rw [last, noBlank b (by simp)] at isBlank
    cases isBlank

/-- After the day comes the year, so a number of two digits is no year. -/
theorem not_dayYear_of_numbers {day ordinal separators year v : List Char}
    (isFirst : Digits least most x) (marked : isDelimiter c = true) (isSecond : Digits 1 2 y)
    (marked' : isDelimiter d = true) (isDay : Digits 1 2 day)
    (isOrdinal : ordinal = [] ∨ IsOrdinal ordinal)
    (some : separators ≠ []) (separated : ∀ b ∈ separators, isYearSeparator b = true)
    (isYear : Digits 4 4 year) (clear : Clear (v ++ s)) :
    x ++ c :: (y ++ d :: z) ≠ day ++ (ordinal ++ (separators ++ (year ++ v))) := by
  intro inside
  have letters := isLetter_of_mem_ordinal isOrdinal
  obtain ⟨rfl, afterDay⟩ := isFirst.split isDay inside
    (stops_cons (isDigit_of_isDelimiter marked))
    (stops_append (fun b member => isDigit_of_isLetter (letters b member))
      (stops_of_ne_nil some fun b member => isDigit_of_isYearSeparator (separated b member)))
  obtain rfl : ordinal = [] := by
    cases ordinal with
    | nil => rfl
    | cons b ordinal =>
        obtain rfl : c = b := (List.cons.inj afterDay).1
        rw [isDelimiter_of_isLetter (letters c List.mem_cons_self)] at marked
        cases marked
  obtain ⟨b, separators, rfl⟩ := List.exists_cons_of_ne_nil some
  obtain ⟨rfl, seconds⟩ := List.cons.inj afterDay
  obtain ⟨rfl, years⟩ := @split_unique isYearSeparator [] (y ++ d :: z) separators _ seconds
    (fun _ absent => nomatch absent) (fun b member => separated b (List.mem_cons_of_mem _ member))
    (isSecond.stops fun b => isDigit_of_isYearSeparator)
    (isYear.stops fun b => isDigit_of_isYearSeparator)
  obtain ⟨rfl, -⟩ := isSecond.split isYear years (stops_cons (isDigit_of_isDelimiter marked'))
    (by
      cases v with
      | nil => exact fun _ absent => nomatch absent
      | cons b v => exact stops_of_clear clear)
  exact absurd (isYear.1.trans isSecond.2.1) (by decide)

/-- There is no blank between three numbers, and in them no year after the first one. -/
theorem monthNameDayYear_absent (noDigit : ∀ c ∈ p, c.isDigit = false)
    (noDigit' : ∀ c ∈ s, c.isDigit = false) (isFirst : Digits least most x)
    (marked : isDelimiter c = true) (isSecond : Digits 1 2 y) (marked' : isDelimiter d = true)
    (isThird : ∀ c ∈ z, c.isDigit = true) :
    DateFormat.monthNameDayYear.tryParse (p ++ ((x ++ c :: (y ++ d :: z)) ++ s)) = none := by
  apply tryParse_eq_none_of_absent
  intro front word back fields stands
  obtain ⟨split, isDate, -, clearAfter⟩ := stands
  cases isDate with
  | @monthNameDayYear name mark blanks day ordinal separators year index _ _ some blank isDay
      isOrdinal some' separated isYear =>
      have ends := @digitEnds_append day year (ordinal ++ separators) isDay.exists_cons
        isYear.reverse.exists_cons
      have regrouped : p ++ ((x ++ c :: (y ++ d :: z)) ++ s) =
          (front ++ (name ++ (mark ++ blanks))) ++
            ((day ++ ((ordinal ++ separators) ++ year)) ++ back) := by
        rw [split]
        simp only [List.append_assoc]
      obtain ⟨u, v, before, inside, rfl⟩ := ends.exists_inside regrouped noDigit noDigit'
      -- The character before the day is a blank.
      have noBlank := isSpace_of_mem_numbers isFirst.2.2 marked isSecond.2.2 marked' isThird
      obtain rfl : u = [] := by
        simp only [← List.append_assoc] at before
        refine eq_nil_of_blank_before some blank ?_ before
        intro b member
        apply noBlank b
        rw [inside]
        exact List.mem_append_left _ member
      simp only [List.nil_append, List.append_assoc] at inside
      exact not_dayYear_of_numbers isFirst marked isSecond marked' isDay isOrdinal some' separated
        isYear clearAfter inside

/-- A date with two delimiters begins where the only two begin. -/
theorem DateText.begins_first {u v word : List Char} {fields : DateFields}
    (isDate : DateText .yearMonthDay word fields) (isFirst : Digits least most x)
    (marked : isDelimiter c = true) (isSecond : Digits 1 2 y) (marked' : isDelimiter d = true)
    (unmarked : ∀ b ∈ z, isDelimiter b = false)
    (apart : ∀ b ∈ u.getLast?, b.isDigit = false)
    (inside : x ++ c :: (y ++ d :: z) = u ++ (word ++ v)) : u = [] := by
  have uncounted : ∀ {part : List Char}, (∀ b ∈ part, isDelimiter b = false) →
      part.countP isDelimiter = 0 := by
    intro part rejected
    rw [List.countP_eq_zero]
    intro b member
    rw [rejected b member]
    exact Bool.false_ne_true
  have number : ∀ {part : List Char} {least most : ℕ}, Digits least most part →
      part.countP isDelimiter = 0 :=
    fun digits => uncounted fun b member => isDelimiter_of_isDigit (digits.2.2 b member)
  cases isDate with
  | @yearMonthDay year month day time e f _ isYear marked₂ isMonth marked₂' isDay =>
      have count := congrArg (List.countP isDelimiter) inside
      simp only [List.countP_append, List.countP_cons, number isFirst, number isSecond,
        uncounted unmarked, number isYear, number isMonth, number isDay, marked, marked', marked₂,
        marked₂', ↓reduceIte] at count
      have undelimited : ∀ b ∈ u, ¬ isDelimiter b = true := List.countP_eq_zero.mp (by omega)
      have within : u.length ≤ x.length := by
        by_contra longer
        obtain ⟨between, rfl, rest⟩ := exists_between inside (Nat.le_of_not_le longer)
        cases between with
        | nil => exact longer (by rw [List.append_nil])
        | cons b between =>
            obtain rfl : c = b := (List.cons.inj rest).1
            exact undelimited c (List.mem_append_right _ List.mem_cons_self) marked
      obtain ⟨between, rfl, -⟩ := exists_between inside.symm within
      rcases List.eq_nil_or_concat u with rfl | ⟨u, b, rfl⟩
      · rfl
      · have isDigit := isFirst.2.2 b (by simp)
        rw [apart b (by simp)] at isDigit
        cases isDigit

/-- No year is the first of three numbers that begin with a day or a month. -/
theorem DateText.not_inside {u v word : List Char} {fields : DateFields}
    (isDate : DateText .yearMonthDay word fields) (isFirst : Digits 1 2 x)
    (marked : isDelimiter c = true) (isSecond : Digits 1 2 y) (marked' : isDelimiter d = true)
    (unmarked : ∀ b ∈ z, isDelimiter b = false)
    (apart : ∀ b ∈ u.getLast?, b.isDigit = false) :
    x ++ c :: (y ++ d :: z) ≠ u ++ (word ++ v) := by
  intro inside
  obtain rfl := isDate.begins_first isFirst marked isSecond marked' unmarked apart inside
  cases isDate with
  | yearMonthDay isYear marked₂ =>
      simp only [List.nil_append, List.append_assoc, List.cons_append] at inside
      obtain ⟨rfl, -⟩ := isFirst.split isYear inside (stops_cons (isDigit_of_isDelimiter marked))
        (stops_cons (isDigit_of_isDelimiter marked₂))
      exact absurd (isYear.1.trans isFirst.2.1) (by decide)

/-- The last character before a date is no digit. -/
theorem getLast?_of_clear {u : List Char} (clear : Clear (p ++ u).reverse) :
    ∀ b ∈ u.getLast?, b.isDigit = false := by
  intro b last
  apply stops_of_clear clear
  rw [List.head?_reverse, List.getLast?_append, Option.mem_def.mp last, Option.some_or]
  rfl

theorem yearMonthDay_absent (noDigit : ∀ c ∈ p, c.isDigit = false)
    (noDigit' : ∀ c ∈ s, c.isDigit = false) (isFirst : Digits 1 2 x) (marked : isDelimiter c = true)
    (isSecond : Digits 1 2 y) (marked' : isDelimiter d = true) (isThird : Digits 4 4 z) :
    DateFormat.yearMonthDay.tryParse (p ++ ((x ++ c :: (y ++ d :: z)) ++ s)) = none := by
  apply tryParse_eq_none_of_absent
  intro front word back fields stands
  obtain ⟨split, isDate, clearBefore, -⟩ := stands
  have ends : DigitEnds word := by
    cases isDate with
    | @yearMonthDay year month day time e f _ isYear _ isMonth _ isDay isTime =>
        have ends := @digitEnds_append year (day ++ time) (e :: (month ++ [f])) isYear.exists_cons
          (by
            rw [List.reverse_append]
            exact isTime.reverse_cons isDay)
        simpa only [List.cons_append, List.append_assoc, List.nil_append] using ends
  obtain ⟨u, v, rfl, inside, -⟩ := ends.exists_inside split noDigit noDigit'
  refine isDate.not_inside isFirst marked isSecond marked' ?_ (getLast?_of_clear clearBefore) inside
  exact fun b member => isDelimiter_of_isDigit (isThird.2.2 b member)

end Absent

/-! ## The readings -/

section Readings

variable {p s : List Char} {date : Calendar.Date} {text : List Char}

/-- A date with a month's name is the first one where the places before it have none. -/
theorem firstDate_of_name {format : DateFormat} {word : List Char} {fields : DateFields}
    (isNamed : format = .dayMonthNameYear ∨ format = .monthNameDayYear)
    (isDate : DateText format word fields) (clearBefore : Clear p.reverse) (clearAfter : Clear s)
    (least : ∀ front word' back fields', DateAt format (p ++ (word ++ s)) front word' back fields' →
      p.length ≤ front.length) : FirstDate format (p ++ (word ++ s)) fields := by
  refine ⟨p, word, s, ⟨rfl, isDate, clearBefore, clearAfter⟩, ?_⟩
  intro front' word' back' fields' stands
  refine ⟨least _ _ _ _ stands, ?_⟩
  intro same
  obtain ⟨-, words⟩ := List.append_inj stands.split same.symm
  obtain ⟨rfl, -⟩ := isDate.unique_of_name isNamed stands.isDate words
  exact le_rfl

/-- A date in the years of the code is its midnight. -/
theorem timestamp_of_date {year monthIndex day : ℤ} (valid : date.Valid) (low : 1970 ≤ date.year)
    (high : date.year ≤ 2100) (isYear : year = date.year) (isMonth : monthIndex = date.month)
    (isDay : day = date.day) : (⟨year, monthIndex, day, none⟩ : DateFields).timestamp =
      some (String.ofList (isoText date 0)) := by
  have fieldsValid : (⟨year, monthIndex, day, none⟩ : DateFields).Valid :=
    ⟨⟨date, valid, low, high, ⟨isYear, isMonth, isDay⟩⟩, fun _ absent => nomatch absent⟩
  exact @DateFields.Valid.timestamp_eq _ fieldsValid date ⟨isYear, isMonth, isDay⟩

theorem NamesMonth.stops_reverse {name rest : List Char} {index : ℕ} (names : NamesMonth name index)
    {accepts : Char → Bool} (apart : ∀ c, IsLetter c → accepts c = false) :
    ∀ c ∈ (name.reverse ++ rest).head?, accepts c = false :=
  stops_of_ne_nil (List.reverse_ne_nil_iff.mpr names.ne_nil) fun c member =>
    apart c (names.isLetter c (List.mem_reverse.mp member))

/-- Before a single blank only one name of a month ends. -/
theorem NamesMonth.eq_append {name name' mark blanks more : List Char} {index index' : ℕ}
    (isMonth : NamesMonth name index) (isMonth' : NamesMonth name' index')
    (marks : ∀ c ∈ mark, isDelimiter c = true) (blank : ∀ c ∈ blanks, isSpace c = true)
    (ends : name' ++ (mark ++ blanks) = more ++ (name ++ [' '])) : name' = more ++ name := by
  have reversed := congrArg List.reverse ends
  simp only [List.reverse_append, List.reverse_singleton, List.append_assoc] at reversed
  have isBlank : ∀ c ∈ blanks.reverse, isSpace c = true :=
    fun c member => blank c (List.mem_reverse.mp member)
  have isMark : ∀ c ∈ mark.reverse, isDelimiter c = true :=
    fun c member => marks c (List.mem_reverse.mp member)
  have lastLetter : ∀ {accepts : Char → Bool}, (∀ c, IsLetter c → accepts c = false) →
      ∀ c ∈ name'.reverse.head?, accepts c = false := by
    intro accepts apart
    rw [← List.append_nil name'.reverse]
    exact isMonth'.stops_reverse apart
  obtain ⟨-, withMark⟩ := @split_unique isSpace blanks.reverse _ [' '] _ reversed isBlank
    (by decide)
    (stops_append (fun c member => isSpace_of_isDelimiter (isMark c member))
      (lastLetter fun _ => isSpace_of_isLetter))
    (isMonth.stops_reverse fun _ => isSpace_of_isLetter)
  obtain ⟨-, names⟩ := @split_unique isDelimiter mark.reverse _ [] _ withMark isMark
    (fun _ absent => nomatch absent) (lastLetter fun _ => isDelimiter_of_isLetter)
    (isMonth.stops_reverse fun _ => isDelimiter_of_isLetter)
  exact List.reverse_inj.mp (names.trans List.reverse_append.symm)

/-- The month's name before the first digits is the last word before them. -/
theorem DateAt.length_le_of_name {name rest front word back : List Char} {index : ℕ}
    {fields : DateFields} (noDigit : ∀ c ∈ p, c.isDigit = false) (clearBefore : Clear p.reverse)
    (isMonth : NamesMonth name index) (digits : ∃ c tail, rest = c :: tail ∧ c.isDigit = true)
    (stands : DateAt .monthNameDayYear (p ++ (name ++ ' ' :: rest)) front word back fields) :
    p.length ≤ front.length := by
  obtain ⟨split, isDate, -, -⟩ := stands
  cases isDate with
  | @monthNameDayYear name' mark blanks day ordinal separators year index' isMonth' marked some
      blank isDay =>
      by_contra shorter
      obtain ⟨more, rfl, inner⟩ := exists_between split.symm (Nat.le_of_not_le shorter)
      have marks := isDelimiter_of_mem_mark marked
      have letters := isMonth'.isLetter
      -- Both readings end where the first digits begin.
      obtain ⟨ends, -⟩ := @split_unique (fun c => !c.isDigit) (name' ++ (mark ++ blanks)) _
        (more ++ (name ++ [' '])) rest
        (by simpa only [List.append_assoc, List.cons_append, List.nil_append] using inner)
        (by
          intro c member
          simp only [List.mem_append] at member
          rw [Bool.not_eq_true']
          rcases member with letter | mark | space
          · exact isDigit_of_isLetter (letters c letter)
          · exact isDigit_of_isDelimiter (marks c mark)
          · exact isDigit_of_isSpace (blank c space))
        (by
          intro c member
          simp only [List.mem_append, List.mem_singleton] at member
          rw [Bool.not_eq_true']
          rcases member with context | letter | rfl
          · exact noDigit c (List.mem_append_right _ context)
          · exact isDigit_of_isLetter (isMonth.isLetter c letter)
          · decide)
        (isDay.stops fun _ => Bool.not_eq_true' _ |>.mp)
        (by
          obtain ⟨c, tail, rfl, isDigit⟩ := digits
          exact stops_cons (by rw [isDigit]; rfl))
      obtain rfl := isMonth.eq_append isMonth' marks blank ends
      rcases List.eq_nil_or_concat more with rfl | ⟨more, c, rfl⟩
      · exact shorter (by rw [List.append_nil])
      · have letter : IsLetter c := letters c (by simp)
        rw [List.concat_eq_append, ← List.append_assoc, List.reverse_append,
          List.reverse_singleton, List.singleton_append, clear_cons,
          isWordChar_of_isLetter letter] at clearBefore
        cases clearBefore

theorem stops_of_numbers {x y z : List Char} {c d : Char} {least most least' most' : ℕ}
    (isFirst : Digits least most x) (marked : isDelimiter c = true) (isSecond : Digits 1 2 y)
    (marked' : isDelimiter d = true) (isThird : Digits least' most' z) :
    ∀ b ∈ x ++ c :: (y ++ d :: z), ¬ IsLetter b := by
  intro b member letter
  have notDigit := isDigit_of_isLetter letter
  have notDelimiter := isDelimiter_of_isLetter letter
  simp only [List.mem_append, List.mem_cons] at member
  rcases member with first | rfl | second | rfl | third
  · rw [isFirst.2.2 b first] at notDigit
    cases notDigit
  · rw [marked] at notDelimiter
    cases notDelimiter
  · rw [isSecond.2.2 b second] at notDigit
    cases notDigit
  · rw [marked'] at notDelimiter
    cases notDelimiter
  · rw [isThird.2.2 b third] at notDigit
    cases notDigit

theorem dayAndMonthIndex_of_month {a b : ℤ} (month : b ≤ 12) :
    dayAndMonthIndex a b = (a, b - 1) := by
  unfold dayAndMonthIndex
  split
  · rfl
  · rw [if_neg (by omega)]

theorem dayAndMonthIndex_of_day {a b : ℤ} (month : a ≤ 12) (day : 12 < b) :
    dayAndMonthIndex a b = (b, a - 1) := by
  rw [dayAndMonthIndex, if_neg (by omega), if_pos (by omega)]

/-- Three numbers with the year at the end are read as day, month and year in the order that the
code decides on. -/
theorem extractTimestampFromText_numbers {a b year : List Char} {c d : Char}
    (isFirst : Digits 1 2 a) (marked : isDelimiter c = true) (isSecond : Digits 1 2 b)
    (marked' : isDelimiter d = true) (isYear : Digits 4 4 year)
    (noDigit : ∀ c ∈ p, c.isDigit = false) (noDigit' : ∀ c ∈ s, c.isDigit = false)
    (clearBefore : Clear p.reverse) (clearAfter : Clear s) :
    extractTimestampFromText (p ++ ((a ++ c :: (b ++ d :: year)) ++ s)) =
      (⟨Decimal.value year, (dayAndMonthIndex (Decimal.value a) (Decimal.value b)).2,
        (dayAndMonthIndex (Decimal.value a) (Decimal.value b)).1, none⟩ :
        DateFields).timestamp := by
  have first := firstDate_numericDelimitedDate noDigit clearBefore isFirst marked isSecond marked'
    isYear (stops_of_clear clearAfter) (longestTime_none noDigit' clearAfter)
  have regrouped : a ++ c :: (b ++ d :: (year ++ s)) = (a ++ c :: (b ++ d :: year)) ++ s := by
    simp only [List.append_assoc, List.cons_append]
  rw [regrouped] at first
  rw [extractTimestampFromText_eq, dayMonthNameYear_absent noDigit noDigit'
      (Or.inl (stops_of_numbers isFirst marked isSecond marked' isYear)),
    monthNameDayYear_absent noDigit noDigit' isFirst marked isSecond marked' isYear.2.2,
    yearMonthDay_absent noDigit noDigit' isFirst marked isSecond marked' isYear,
    first.tryParse_eq, Option.none_or, Option.none_or, Option.none_or]

/-- No date with the day first stands where the month is first. -/
theorem dayMonthNameYear_absent_of_monthName {name day ordinal year : List Char} {index : ℕ}
    (noDigit : ∀ c ∈ p, c.isDigit = false) (noDigit' : ∀ c ∈ s, c.isDigit = false)
    (isMonth : NamesMonth name index) (isDay : Digits 1 2 day)
    (isOrdinal : ordinal = [] ∨ IsOrdinal ordinal) (isYear : Digits 4 4 year) :
    DateFormat.dayMonthNameYear.tryParse
      (p ++ ((name ++ ' ' :: (day ++ (ordinal ++ ',' :: ' ' :: year))) ++ s)) = none := by
  have regrouped : p ++ ((name ++ ' ' :: (day ++ (ordinal ++ ',' :: ' ' :: year))) ++ s) =
      (p ++ (name ++ [' '])) ++ ((day ++ (ordinal ++ ',' :: ' ' :: year)) ++ s) := by
    simp only [List.append_assoc, List.cons_append, List.nil_append]
  have letters := isLetter_of_mem_ordinal isOrdinal
  rw [regrouped]
  refine dayMonthNameYear_absent ?_ noDigit' (Or.inr ?_)
  · intro x member
    simp only [List.mem_append, List.mem_singleton] at member
    rcases member with context | letter | rfl
    · exact noDigit x context
    · exact isDigit_of_isLetter (isMonth.isLetter x letter)
    · decide
  · intro x member
    simp only [List.mem_append, List.mem_cons] at member
    rcases member with digit | letter | rfl | rfl | digit
    · exact isDelimiter_of_isDigit (isDay.2.2 x digit)
    · exact isDelimiter_of_isLetter (letters x letter)
    · decide
    · decide
    · exact isDelimiter_of_isDigit (isYear.2.2 x digit)

/-- A rendering of a date between texts without digits is read as its midnight. -/
theorem extractTimestampFromText_rendering (valid : date.Valid) (low : 1970 ≤ date.year)
    (high : date.year ≤ 2100) (rendering : Rendering date text)
    (noDigit : ∀ c ∈ p, c.isDigit = false) (noDigit' : ∀ c ∈ s, c.isDigit = false)
    (clearBefore : Clear p.reverse) (clearAfter : Clear s) :
    extractTimestampFromText (p ++ (text ++ s)) = some (String.ofList (isoText date 0)) := by
  rw [extractTimestampFromText_eq]
  cases rendering with
  | dayMonthName isDay marked isMonth marked' isYear =>
      have first := firstDate_of_name (Or.inl rfl)
        (.dayMonthNameYear isDay.1 marked isMonth marked' isYear.1) clearBefore clearAfter
        fun _ _ _ _ stands => stands.length_le_of_no_digits (by decide) noDigit
      rw [first.tryParse_eq, timestamp_of_date valid low high isYear.2 rfl (by rw [isDay.2]),
        Option.some_or]
  | @monthName name day ordinal year isMonth isDay isOrdinal isYear =>
      have isDate : DateText .monthNameDayYear
          (name ++ ' ' :: (day ++ (ordinal ++ ',' :: ' ' :: year))) _ :=
        @DateText.monthNameDayYear name [] [' '] day ordinal [',', ' '] year date.month isMonth
          (Or.inl rfl) (List.cons_ne_nil _ _) (by decide) isDay.1 isOrdinal (List.cons_ne_nil _ _)
          (by decide) isYear.1
      have first := firstDate_of_name (Or.inr rfl) isDate clearBefore clearAfter (by
        intro front word' back fields' stands
        rw [List.append_assoc, List.cons_append, List.append_assoc] at stands
        obtain ⟨x, tail, split, isDigit⟩ := isDay.1.exists_cons
        exact stands.length_le_of_name noDigit clearBefore isMonth
          ⟨x, _, by rw [split]; rfl, isDigit⟩)
      have absent := dayMonthNameYear_absent_of_monthName noDigit noDigit' isMonth isDay.1 isOrdinal
        isYear.1
      rw [absent, first.tryParse_eq, timestamp_of_date valid low high isYear.2 rfl
        (by rw [isDay.2]), Option.none_or, Option.some_or]
  | @yearMonthDay year month day c d isYear marked isMonth marked' isDay =>
      have first := firstDate_yearMonthDay noDigit clearBefore isYear.1 marked isMonth.1 marked'
        isDay.1 (stops_of_clear clearAfter) (longestTime_none noDigit' clearAfter)
      have regrouped : year ++ c :: (month ++ d :: (day ++ s)) =
          (year ++ c :: (month ++ d :: day)) ++ s := by
        simp only [List.append_assoc, List.cons_append]
      rw [regrouped] at first
      have month' := isMonth.2
      rw [dayMonthNameYear_absent noDigit noDigit'
          (Or.inl (stops_of_numbers isYear.1 marked isMonth.1 marked' isDay.1)),
        monthNameDayYear_absent noDigit noDigit' isYear.1 marked isMonth.1 marked' isDay.1.2.2,
        first.tryParse_eq, timestamp_of_date valid low high isYear.2 (by omega) (by rw [isDay.2]),
        Option.none_or, Option.none_or, Option.some_or]
  | dayMonthYear isDay marked isMonth marked' isYear =>
      rw [← extractTimestampFromText_eq, extractTimestampFromText_numbers isDay.1 marked isMonth.1
        marked' isYear.1 noDigit noDigit' clearBefore clearAfter]
      have month := valid.month_lt
      have month' := isMonth.2
      rw [dayAndMonthIndex_of_month (by omega)]
      exact timestamp_of_date valid low high isYear.2 (by simp only; omega) (by rw [isDay.2])
  | monthDayYear large isMonth marked isDay marked' isYear =>
      rw [← extractTimestampFromText_eq, extractTimestampFromText_numbers isMonth.1 marked isDay.1
        marked' isYear.1 noDigit noDigit' clearBefore clearAfter]
      have month := valid.month_lt
      have day' := isDay.2
      have month' := isMonth.2
      rw [dayAndMonthIndex_of_day (by omega) (by omega)]
      exact timestamp_of_date valid low high isYear.2 (by simp only; omega) (by rw [day'])

/-- A month word of the context before the date. -/
theorem extractTimestampFromText_rendering_april :
    extractTimestampFromText ("Paid in May: ".toList ++ ("apr 5th, 2026".toList ++ ".".toList)) =
      some (String.ofList (isoText ⟨2026, 3, 5⟩ 0)) := by
  have rendering : Rendering ⟨2026, 3, 5⟩ "apr 5th, 2026".toList :=
    @Rendering.monthName ⟨2026, 3, 5⟩ "apr".toList "5".toList "th".toList "2026".toList
      ⟨_, rfl, by decide⟩ ⟨by decide, by decide⟩ (Or.inr (by decide)) ⟨by decide, by decide⟩
  exact extractTimestampFromText_rendering (by decide) (by decide) (by decide) rendering (by decide)
    (by decide) (by decide) (by decide)

end Readings

end BirrTrack.Processing
