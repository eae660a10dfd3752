import BirrTrack.OcrService.Parser
import BirrTrack.Processing.Parsing
import BirrTrack.Transactions.Creation

/-! # A wall-clock time on both paths

A receipt's date and time of day reach the database through the patterns of the parsing
service or through the language model and the OCR service's normalization. The first
path reads them in UTC, the second one in the server's local time.
-/

namespace BirrTrack.Processing

open Js Transactions Database Backtracking Pattern
open Calendar (dateText clockText)

/-- `YYYY-MM-DD HH:MM:SS` -/
def wallText (date : Calendar.Date) (seconds : ℕ) : List Char :=
  dateText date ++ ' ' :: clockText seconds

/-- The wall-clock time of a date and the seconds since midnight, in milliseconds. -/
def wallTime (date : Calendar.Date) (seconds : ℕ) : ℤ :=
  Calendar.dayOf date * msPerDay + seconds * 1000

section WallClock

variable {date : Calendar.Date} {seconds : ℕ}

theorem yearText_eq (low : 0 ≤ date.year) (high : date.year ≤ 9999) :
    Calendar.yearText date.year = Decimal.padded 4 date.year.natAbs := if_pos ⟨low, high⟩

theorem mem_wallText (low : 0 ≤ date.year) (high : date.year ≤ 9999) {c : Char}
    (member : c ∈ wallText date seconds) :
    c.isDigit = true ∨ c = '-' ∨ c = ' ' ∨ c = ':' := by
  have digit : ∀ {width n : ℕ}, c ∈ Decimal.padded width n → c.isDigit = true :=
    Decimal.isDigit_of_mem_padded
  simp only [wallText, dateText, clockText, yearText_eq low high, List.mem_append,
    List.mem_cons] at member
  rcases member with (year | minus | month | minus | day) | blank | hour | colon | minute | colon |
    second
  · exact Or.inl (digit year)
  · exact Or.inr (Or.inl minus)
  · exact Or.inl (digit month)
  · exact Or.inr (Or.inl minus)
  · exact Or.inl (digit day)
  · exact Or.inr (Or.inr (Or.inl blank))
  · exact Or.inl (digit hour)
  · exact Or.inr (Or.inr (Or.inr colon))
  · exact Or.inl (digit minute)
  · exact Or.inr (Or.inr (Or.inr colon))
  · exact Or.inl (digit second)

/-! ## The path through the language model -/

/-- A padded number starts and ends with a digit. -/
theorem padded_ends (width n : ℕ) :
    (∃ c rest, Decimal.padded (width + 1) n = c :: rest ∧ c.isDigit = true) ∧
      ∃ c rest, (Decimal.padded (width + 1) n).reverse = c :: rest ∧ c.isDigit = true := by
  have ends : ∀ text : List Char, text.length = width + 1 → (∀ c ∈ text, c.isDigit = true) →
      ∃ c rest, text = c :: rest ∧ c.isDigit = true := by
    intro text length all
    have first := @Decimal.exists_digit_cons text [] (List.ne_nil_of_length_pos (by omega)) all
    rwa [List.append_nil] at first
  refine ⟨ends _ (Decimal.length_padded _ _) fun _ => Decimal.isDigit_of_mem_padded, ends _ ?_ ?_⟩
  · rw [List.length_reverse, Decimal.length_padded]
  · intro c member
    exact Decimal.isDigit_of_mem_padded (List.mem_reverse.mp member)

theorem isSpace_of_isDigit {c : Char} (isDigit : c.isDigit = true) : Python.isSpace c = false := by
  have range := Decimal.toNat_of_isDigit isDigit
  simp only [Python.isSpace, decide_eq_false_iff_not]
  omega

theorem normalizeString_wallText (low : 0 ≤ date.year) (high : date.year ≤ 9999) :
    OcrService.normalizeString (some (wallText date seconds)) = some (wallText date seconds) := by
  obtain ⟨first, digits, yearEq, isDigit⟩ := (padded_ends 3 date.year.natAbs).1
  obtain ⟨last, others, secondEq, isDigit'⟩ := (padded_ends 1 (seconds % 60)).2
  have front : ∃ rest, wallText date seconds = first :: rest := by
    rw [wallText, dateText, yearText_eq low high, yearEq]
    exact ⟨_, rfl⟩
  have back : ∃ rest, (wallText date seconds).reverse = last :: rest := by
    simp only [wallText, clockText, List.reverse_append, List.reverse_cons, secondEq,
      List.cons_append]
    exact ⟨_, rfl⟩
  obtain ⟨rest, front⟩ := front
  obtain ⟨rest', back⟩ := back
  have stripped : Python.strip (wallText date seconds) = wallText date seconds := by
    refine Python.Stripped.strip_eq ⟨?_, ?_⟩
    · intro c head
      rw [front] at head
      cases head
      exact isSpace_of_isDigit isDigit
    · intro c last
      rw [← List.head?_reverse, back] at last
      cases last
      exact isSpace_of_isDigit isDigit'
  have nonempty : wallText date seconds ≠ [] := by
    rw [front]
    exact List.cons_ne_nil _ _
  simp only [OcrService.normalizeString, Option.bind_eq_bind, Option.bind_some, stripped, nonempty,
    ↓reduceIte]

/-- The OCR service answers with the same date and time, still without a zone. -/
theorem normalizeTimestamp_wallText (valid : date.Valid) (low : 1 ≤ date.year)
    (high : date.year ≤ 9999) (inDay : seconds < 86400) :
    OcrService.normalizeTimestamp (some (wallText date seconds)) =
      some (dateText date ++ 'T' :: clockText seconds) := by
  let moment : Python.Datetime := {
    date := date
    seconds := seconds
    microsecond := 0
    offset := none
    valid := valid
    year := ⟨low, high⟩
    inDay := inDay
    inSecond := by decide
    inOffset := fun _ impossible => nomatch impossible }
  have noZulu : (wallText date seconds).flatMap
      (fun c => if c = 'Z' then "+00:00".toList else [c]) = wallText date seconds := by
    have each : ∀ c ∈ wallText date seconds,
        (if c = 'Z' then "+00:00".toList else [c]) = [c] := by
      intro c member
      rw [if_neg]
      rintro rfl
      have kinds := mem_wallText (by omega) high member
      revert kinds
      decide
    rw [List.flatMap_congr each, List.flatMap_singleton']
  have parsed : Python.fromisoformat (wallText date seconds) = some moment :=
    @Python.fromisoformat_naive moment rfl rfl ' '
  simp only [OcrService.normalizeTimestamp,
    normalizeString_wallText (by omega : 0 ≤ date.year) high, Option.bind_eq_bind,
    Option.bind_some, noZulu, parsed]
  simp only [Python.Datetime.isoformat, moment, ↓reduceIte, Option.elim_none, List.append_nil]
  rfl

/-! ## The path through the patterns -/

/-- A character that is a letter when its case is ignored. -/
def IsLetter (c : Char) : Prop := c.toLower.isLower = true

theorem needs_word {c : Char} {word : List Char} (letter : IsLetter c) :
    (concat ((c :: word).map litI)).Needs IsLetter := by
  have front : (litI c).Needs IsLetter := by
    intro d accepted
    rw [IsLetter, of_decide_eq_true accepted]
    exact letter
  cases word with
  | nil => exact front
  | cons d word => exact Or.inl front

theorem needs_monthName : MONTH_NAME_PATTERN.Needs IsLetter :=
  ⟨Or.inl (needs_word rfl), Or.inl (needs_word rfl), Or.inl (needs_word rfl),
    Or.inl (needs_word rfl), needs_word rfl, Or.inl (needs_word rfl), Or.inl (needs_word rfl),
    Or.inl (needs_word rfl), Or.inl (needs_word rfl), Or.inl (needs_word rfl),
    Or.inl (needs_word rfl), Or.inl (needs_word rfl)⟩

/-- There is no month name in digits and marks. -/
theorem tryParse_monthName_wallText (low : 0 ≤ date.year) (high : date.year ≤ 9999) :
    tryParseDayMonthNameYear (wallText date seconds) = none ∧
      tryParseMonthNameDayYear (wallText date seconds) = none := by
  have lacks : ∀ c ∈ wallText date seconds, ¬ IsLetter c := by
    intro c member letter
    unfold IsLetter at letter
    rcases mem_wallText low high member with digit | rfl | rfl | rfl
    · rw [isLower_of_isDigit digit] at letter
      cases letter
    · cases letter
    · cases letter
    · cases letter
  have needs : dayMonthNameYear.Needs IsLetter :=
    Or.inr (Or.inr (Or.inr (Or.inl needs_monthName)))
  have needs' : monthNameDayYear.Needs IsLetter := Or.inr (Or.inl needs_monthName)
  exact ⟨by rw [tryParseDayMonthNameYear, exec, scan_eq_none_of_needs _ needs lacks]; rfl,
    by rw [tryParseMonthNameDayYear, exec, scan_eq_none_of_needs _ needs' lacks]; rfl⟩

/-! ### The fields of a date with a time -/

section Fields

variable {before rest : List Char} {groups : ℕ → Option Capture}

theorem first_digits (index width n : ℕ) :
    First (.group index (.times width digit)) ⟨before, Decimal.padded width n ++ rest, groups⟩
      ⟨(Decimal.padded width n).reverse ++ before, rest,
        Function.update groups index (some ⟨before, Decimal.padded width n⟩)⟩ :=
  First.group_word index (first_times_char (Decimal.length_padded width n)
    fun _ member => Decimal.isDigit_of_mem_padded member)

theorem first_twoDigits (index n : ℕ) :
    First (.group index (.between 1 2 digit)) ⟨before, Decimal.padded 2 n ++ rest, groups⟩
      ⟨(Decimal.padded 2 n).reverse ++ before, rest,
        Function.update groups index (some ⟨before, Decimal.padded 2 n⟩)⟩ := by
  refine First.group_word index (first_between_char ?_ ?_ ?_ (Or.inl (Decimal.length_padded 2 n)))
  · rw [Decimal.length_padded]
    exact Nat.le_succ 1
  · rw [Decimal.length_padded]
  · exact fun _ member => Decimal.isDigit_of_mem_padded member

theorem isWordChar_of_isDigit {c : Char} (isDigit : c.isDigit = true) : isWordChar c = true := by
  simp only [isWordChar, Char.isAlphanum, isDigit, Bool.or_true, Bool.true_or]

/-- The separator between a date and the digits of an hour is one blank. -/
theorem first_separator (n : ℕ) :
    First (.plus (.char fun c => c = 'T' ∨ isSpace c))
      ⟨before, ' ' :: (Decimal.padded 2 n ++ rest), groups⟩
      ⟨' ' :: before, Decimal.padded 2 n ++ rest, groups⟩ := by
  obtain ⟨first, digits, split, isDigit⟩ := (padded_ends 1 n).1
  have stops : ∀ c ∈ (Decimal.padded 2 n ++ rest).head?, decide (c = 'T' ∨ isSpace c) = false := by
    intro c head
    rw [split] at head
    cases head
    apply decide_eq_false
    rintro (rfl | blank)
    · cases isDigit
    · rw [isDigit_of_isSpace blank] at isDigit
      cases isDigit
  have all : ∀ c ∈ [' '], decide (c = 'T' ∨ isSpace c) = true :=
    List.forall_mem_singleton.mpr rfl
  exact @first_atLeast_char _ before [' '] _ groups 1 (Nat.le_refl 1) all stops

theorem first_boundary_before (width n : ℕ) :
    First .boundary (.start [] (Decimal.padded (width + 1) n ++ rest))
      (.start [] (Decimal.padded (width + 1) n ++ rest)) := by
  obtain ⟨first, digits, split, isDigit⟩ := (padded_ends width n).1
  apply first_boundary
  rw [split]
  simp only [Cursor.start, atBoundary, List.head?_nil, Option.any_none, List.cons_append,
    List.head?_cons, Option.any_some, isWordChar_of_isDigit isDigit, Bool.bne_true, Bool.not_false]

theorem first_boundary_after (width n : ℕ) :
    First .boundary ⟨(Decimal.padded (width + 1) n).reverse ++ before, [], groups⟩
      ⟨(Decimal.padded (width + 1) n).reverse ++ before, [], groups⟩ := by
  obtain ⟨last, digits, split, isDigit⟩ := (padded_ends width n).2
  apply first_boundary
  rw [split]
  simp only [atBoundary, List.head?_nil, Option.any_none, List.cons_append, List.head?_cons,
    Option.any_some, isWordChar_of_isDigit isDigit, Bool.bne_false]

end Fields

/-- The pattern takes the whole text, each field its digits. -/
theorem first_yearMonthDay (low : 0 ≤ date.year) (high : date.year ≤ 9999) :
    ∃ m, First yearMonthDay (.start [] (wallText date seconds)) m ∧
      m.text 1 = some (Decimal.padded 4 date.year.natAbs) ∧
      m.text 2 = some (Decimal.padded 2 (date.month + 1)) ∧
      m.text 3 = some (Decimal.padded 2 date.day) ∧
      m.text 4 = some (Decimal.padded 2 (seconds / 3600)) ∧
      m.text 5 = some (Decimal.padded 2 (seconds / 60 % 60)) ∧
      m.text 6 = some (Decimal.padded 2 (seconds % 60)) := by
  have text : wallText date seconds = Decimal.padded 4 date.year.natAbs ++
      '-' :: (Decimal.padded 2 (date.month + 1) ++ '-' :: (Decimal.padded 2 date.day ++
        ' ' :: (Decimal.padded 2 (seconds / 3600) ++ ':' :: (Decimal.padded 2 (seconds / 60 % 60) ++
          ':' :: (Decimal.padded 2 (seconds % 60) ++ []))))) := by
    simp only [wallText, dateText, clockText, yearText_eq low high, List.append_assoc,
      List.cons_append, List.append_nil]
  have mark : ∀ {accepts : Char → Bool} {before rest groups} c, accepts c = true →
      First (.char accepts) ⟨before, c :: rest, groups⟩ ⟨c :: before, rest, groups⟩ :=
    fun _ accepted => first_char accepted
  have colon : decide (':' = ':') = true := decide_eq_true rfl
  rw [text]
  refine ⟨_, First.seq (first_boundary_before 3 _) (First.seq (first_digits 1 4 _)
    (First.seq (mark '-' rfl) (First.seq (first_twoDigits 2 _) (First.seq (mark '-' rfl)
      (First.seq (first_twoDigits 3 _) (First.seq (First.opt (First.seq (first_separator _)
        (First.seq (first_twoDigits 4 _) (First.seq (mark ':' colon) (First.seq (first_digits 5 2 _)
          (First.opt (First.seq (mark ':' colon) (first_digits 6 2 _))))))))
        (first_boundary_after 1 _))))))), rfl, rfl, rfl, rfl, rfl, rfl⟩

theorem wallTime_bounds (valid : date.Valid) (low : 1970 ≤ date.year) (high : date.year ≤ 2100)
    (inDay : seconds < 86400) :
    0 ≤ wallTime date seconds ∧ wallTime date seconds ≤ 5000000000000 := by
  obtain ⟨lower, upper⟩ := valid.dayOf_bounds
  unfold wallTime msPerDay
  unfold Calendar.yearStart at lower upper
  omega

/-- The parts of a date and a time of day make the wall-clock time in UTC. -/
theorem dateUTC_wallTime (valid : date.Valid) (low : 1970 ≤ date.year) (seconds : ℕ) :
    dateUTC date.year date.month date.day (seconds / 3600 : ℕ) (seconds / 60 % 60 : ℕ)
      (seconds % 60 : ℕ) = timeClip (wallTime date seconds) := by
  have fullYear : ¬ (0 ≤ date.year ∧ date.year ≤ 99) := by omega
  have time : makeTime (seconds / 3600 : ℕ) (seconds / 60 % 60 : ℕ) (seconds % 60 : ℕ) 0 =
      seconds * 1000 := by
    unfold makeTime
    omega
  simp only [dateUTC, fullYear, ↓reduceIte, makeDay_date valid, time, wallTime]

/-- A date of the calendar passes the check of its parts. -/
theorem isReasonableYMD_date (valid : date.Valid) (low : 1970 ≤ date.year)
    (high : date.year ≤ 2100) : isReasonableYMD date.year date.month date.day = true := by
  obtain ⟨lower, upper⟩ := wallTime_bounds valid low high (by decide : 0 < 86400)
  have midnight : dateUTC date.year date.month date.day 0 0 0 = some ⟨wallTime date 0,
      abs_le.mpr ⟨by omega, by omega⟩⟩ := by
    have clipped := dateUTC_wallTime valid low 0
    rw [timeClip, dif_pos (abs_le.mpr ⟨by omega, by omega⟩)] at clipped
    exact clipped
  have positive := valid.1
  have month := valid.month_lt
  have day := valid.day_le
  have inRange : ¬ (date.year < 1970 ∨ date.year > 2100 ∨ (date.month : ℤ) < 0 ∨
      (date.month : ℤ) > 11 ∨ (date.day : ℤ) < 1 ∨ (date.day : ℤ) > 31) := by omega
  have same : wallTime date 0 / msPerDay = Calendar.dayOf date := by
    unfold wallTime msPerDay
    omega
  simp only [isReasonableYMD, inRange, ↓reduceIte, midnight, Option.any_some,
    TimeValue.getUTCFullYear, TimeValue.getUTCMonth, TimeValue.getUTCDate, TimeValue.date, same,
    Calendar.dateOf_dayOf valid, and_self, decide_true]

/-- The patterns read a wall-clock time in UTC. -/
theorem extractTimestampFromText_wallText (valid : date.Valid) (low : 1970 ≤ date.year)
    (high : date.year ≤ 2100) (inDay : seconds < 86400) :
    ∃ t : TimeValue, t.ms = wallTime date seconds ∧
      extractTimestampFromText (wallText date seconds) = some t.toISOString := by
  obtain ⟨lower, upper⟩ := wallTime_bounds valid low high inDay
  obtain ⟨noName, noName'⟩ :=
    @tryParse_monthName_wallText date seconds (by omega) (by omega)
  obtain ⟨m, first, yearText, monthText, dayText, hourText, minuteText, secondText⟩ :=
    @first_yearMonthDay date seconds (by omega) (by omega)
  have number : ∀ {index width n : ℕ}, n < 10 ^ width →
      m.text index = some (Decimal.padded width n) → parseInt m index = n := by
    intro index width n fits captured
    rw [parseInt, captured, Option.getD_some, Decimal.value_padded_of_lt fits]
  have month := valid.month_lt
  have day := valid.day_le
  have yearNumber : parseInt m 1 = date.year := by
    rw [number (by omega) yearText]
    omega
  have monthNumber : parseInt m 2 - 1 = date.month := by
    rw [number (by omega) monthText]
    omega
  let t : TimeValue := ⟨wallTime date seconds, abs_le.mpr ⟨by omega, by omega⟩⟩
  have clipped : timeClip (wallTime date seconds) = some t := timeClip_ms t
  refine ⟨t, rfl, ?_⟩
  have parsed : tryParseYearMonthDay (wallText date seconds) = some t.toISOString := by
    have inClock : ¬ (((seconds / 3600 : ℕ) : ℤ) < 0 ∨ ((seconds / 3600 : ℕ) : ℤ) > 23 ∨
        ((seconds / 60 % 60 : ℕ) : ℤ) < 0 ∨ ((seconds / 60 % 60 : ℕ) : ℤ) > 59 ∨
        ((seconds % 60 : ℕ) : ℤ) < 0 ∨ ((seconds % 60 : ℕ) : ℤ) > 59) := by omega
    have matched : yearMonthDay.exec (wallText date seconds) = some m := scan_of_first first
    simp only [tryParseYearMonthDay, matched, Option.bind_eq_bind, Option.bind_some, toIsoWithTime,
      yearNumber, monthNumber, number (by omega : date.day < 10 ^ 2) dayText,
      isReasonableYMD_date valid low high, not_true_eq_false, ↓reduceIte, hourText, minuteText,
      secondText, Option.isSome_some, and_self,
      number (by omega : seconds / 3600 < 10 ^ 2) hourText,
      number (by omega : seconds / 60 % 60 < 10 ^ 2) minuteText,
      number (by omega : seconds % 60 < 10 ^ 2) secondText, inClock,
      dateUTC_wallTime valid low seconds, clipped, Option.map_some]
  rw [extractTimestampFromText, noName, noName', parsed]
  rfl

end WallClock

/-! ## What the two paths store -/

/-- The instant that `create` stores for a timestamp text. -/
def storedInstant (reader : DateReader) (timestamp : String) : Option Timestamptz :=
  Timestamptz.ofDate reader (newDate reader timestamp)

/-- In every store that has a row created with the first text, a lookup with the row's number and
the second text finds a duplicate. -/
def Recognised (reader : DateReader) (first second : String) : Prop :=
  ∀ (dto : CreateTransactionDto) (generated : Generated) (row : TransactionRow) (db : Db),
    dto.timestamp = first → (dto.toNew reader).toRow reader generated = some row →
      row ∈ db.transactions →
        ∃ found, (findDuplicate reader row.transactionId.value dto.amount second).run db =
          (.ok (some found), db)

/-- Both paths read the text, the same instant is stored for both, and a receipt is recognised
whichever path its row came from. -/
def PathsAgree (reader : DateReader) (wall : List Char) : Prop :=
  ∃ regexText llmText : String, extractTimestampFromText wall = some regexText ∧
    OcrService.normalizeTimestamp (some wall) = some llmText.toList ∧
    (∃ instant, storedInstant reader regexText = some instant ∧
      storedInstant reader llmText = some instant) ∧
    Recognised reader regexText llmText ∧ Recognised reader llmText regexText

variable {reader : DateReader} {date : Calendar.Date} {seconds : ℕ}

theorem recognised_of_storedInstant {first second : String}
    (same : storedInstant reader first = storedInstant reader second) :
    Recognised reader first second := by
  intro dto generated row db given stored member
  obtain ⟨-, cents, instant⟩ := keyOf_eq_some.mp (key_of_toRow stored)
  rw [given] at instant
  have number := congrArg (Option.map Text.value)
    (Text.ofString_value ⟨row.transactionId.value, row.transactionId.noZero⟩)
  have known : keyOf reader row.transactionId.value dto.amount second = some row.key :=
    keyOf_eq_some.mpr ⟨number, cents, same.symm.trans instant⟩
  obtain ⟨other, found⟩ : ∃ other, db.transactions.find? (·.key = row.key) = some other :=
    Option.isSome_iff_exists.mp (List.find?_isSome.mpr ⟨row, member, decide_eq_true rfl⟩)
  refine ⟨other.toEntity, ?_⟩
  rw [findDuplicate_of_key known, found]
  rfl

/-- The patterns send the wall-clock time itself, the language model's path the wall-clock time
less the server's offset. -/
theorem storedInstant_paths (reader : DateReader) (valid : date.Valid) (low : 1970 ≤ date.year)
    (high : date.year ≤ 2100) (inDay : seconds < 86400) :
    ∃ (regexText : String) (instant : Timestamptz),
      instant.instant.ms = sent reader (wallTime date seconds) ∧
      extractTimestampFromText (wallText date seconds) = some regexText ∧
      storedInstant reader regexText = some instant ∧
      ∃ llmText : String,
        OcrService.normalizeTimestamp (some (wallText date seconds)) = some llmText.toList ∧
        storedInstant reader llmText = Timestamptz.ofDate reader (timeClip
          (wallTime date seconds - reader.localOffset (wallTime date seconds))) := by
  obtain ⟨t, ms, extracted⟩ := extractTimestampFromText_wallText valid low high inDay
  have normalized :=
    normalizeTimestamp_wallText valid (by omega) (by omega : date.year ≤ 9999) inDay
  have bounds := wallTime_bounds valid low high inDay
  have shift := abs_lt.mp (abs_sent_sub_lt reader t.ms)
  have inRange : |sent reader t.ms| ≤ 8640000000000000 := by
    rw [abs_le]
    omega
  have later : -210866803200000 ≤ sent reader t.ms := by omega
  let instant : Timestamptz := ⟨⟨sent reader t.ms, inRange⟩, later⟩
  have kept : storedInstant reader t.toISOString = some instant := by
    rw [storedInstant, newDate_toISOString]
    exact Timestamptz.ofDate_eq_some.mpr ⟨t, rfl, rfl⟩
  refine ⟨t.toISOString, instant, congrArg (sent reader) ms, extracted, kept,
    String.ofList (dateText date ++ 'T' :: clockText seconds), ?_, ?_⟩
  · rw [normalized, String.toList_ofList]
  · rw [storedInstant, newDate_local reader valid (by omega) inDay]
    rfl

theorem PathsAgree.localOffset_eq_zero (agree : PathsAgree reader (wallText date seconds))
    (valid : date.Valid) (low : 1970 ≤ date.year) (high : date.year ≤ 2100)
    (inDay : seconds < 86400) : reader.localOffset (wallTime date seconds) = 0 := by
  obtain ⟨regexText, instant, ms, extracted, regexStored, llmText, normalized, llmStored⟩ :=
    storedInstant_paths reader valid low high inDay
  obtain ⟨text, text', extracted', normalized', ⟨common, stored, stored'⟩, -, -⟩ := agree
  cases extracted.symm.trans extracted'
  have sameText : llmText = text' :=
    String.toList_injective (Option.some.inj (normalized.symm.trans normalized'))
  cases regexStored.symm.trans stored
  rw [← sameText, llmStored] at stored'
  -- Both instants are sent less than a minute away from the wall-clock times they stand for.
  obtain ⟨given, clipped, same⟩ := Timestamptz.ofDate_eq_some.mp stored'
  rw [ms, timeClip_eq_some clipped] at same
  have first := abs_lt.mp (abs_sent_sub_lt reader (wallTime date seconds))
  have second := abs_lt.mp (abs_sent_sub_lt reader
    (wallTime date seconds - reader.localOffset (wallTime date seconds)))
  by_contra offset
  have far := reader.coarse _ (wallTime_bounds valid low high inDay).1 offset
  rcases le_abs.mp far with ahead | behind <;> omega

/-- The two paths agree exactly where the server's clock shows UTC. -/
theorem paths_agree_iff (reader : DateReader) (valid : date.Valid) (low : 1970 ≤ date.year)
    (high : date.year ≤ 2100) (inDay : seconds < 86400) :
    PathsAgree reader (wallText date seconds) ↔
      reader.localOffset (wallTime date seconds) = 0 := by
  refine ⟨?_, ?_⟩
  · intro agree
    exact agree.localOffset_eq_zero valid low high inDay
  · intro noOffset
    obtain ⟨regexText, instant, ms, extracted, regexStored, llmText, normalized, llmStored⟩ :=
      storedInstant_paths reader valid low high inDay
    have bounds := wallTime_bounds valid low high inDay
    have clipped : timeClip (wallTime date seconds) =
        some ⟨wallTime date seconds, abs_le.mpr (by omega)⟩ := dif_pos _
    rw [noOffset, sub_zero, clipped] at llmStored
    rw [Timestamptz.ofDate_eq_some.mpr ⟨_, rfl, ms⟩] at llmStored
    have same := regexStored.trans llmStored.symm
    exact ⟨regexText, llmText, extracted, normalized, ⟨instant, regexStored, llmStored⟩,
      recognised_of_storedInstant same, recognised_of_storedInstant same.symm⟩

/-- A server three hours ahead of UTC. -/
def addisAbaba : DateReader where
  zoneOffset := fun _ => 10800000
  localOffset := fun _ => 10800000
  legacy := fun _ => none
  coarse := fun _ _ _ => by decide

/-- The agreement at 14:30 on 8 April 2026, three hours ahead of UTC. -/
theorem paths_agree_addisAbaba_iff :
    PathsAgree addisAbaba (wallText ⟨2026, 3, 8⟩ 52200) ↔
      addisAbaba.localOffset (wallTime ⟨2026, 3, 8⟩ 52200) = 0 :=
  paths_agree_iff addisAbaba (by decide) (by decide) (by decide) (by decide)

/-- A receipt of 14:30 is stored as of 14:30 or of 11:30 UTC, depending on the path. -/
theorem paths_disagree : ¬ PathsAgree addisAbaba "2026-04-08 14:30:00".toList := by
  have text : "2026-04-08 14:30:00".toList = wallText ⟨2026, 3, 8⟩ 52200 := by decide
  intro agree
  rw [text] at agree
  have offset := agree.localOffset_eq_zero (by decide) (by decide) (by decide) (by decide)
  cases offset

end BirrTrack.Processing
