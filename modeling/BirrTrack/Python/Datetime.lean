import BirrTrack.Foundation.Backtracking
import BirrTrack.Foundation.Calendar
import BirrTrack.Python.Text

/-! # Python datetimes

`datetime.fromisoformat` as Python 3.10 documents it, `datetime.isoformat` and
`datetime.strptime` for the directives of dates and times of day.
-/

namespace BirrTrack.Python

open Backtracking Pattern
open Calendar (dateText clockText)

def microsecondsPerDay : ℤ := 86400000000

/-- A `datetime` object; it is naive when it has no offset. -/
@[ext] structure Datetime where
  date : Calendar.Date
  /-- Since midnight. -/
  seconds : ℕ
  microsecond : ℕ
  /-- In microseconds. -/
  offset : Option ℤ
  valid : date.Valid
  year : 1 ≤ date.year ∧ date.year ≤ 9999
  inDay : seconds < 86400
  inSecond : microsecond < 1000000
  inOffset : ∀ difference ∈ offset, |difference| < microsecondsPerDay

/-- The constructor, which checks its arguments. -/
def Datetime.of (year month day hour minute second microsecond : ℕ) (offset : Option ℤ) :
    Option Datetime :=
  let date : Calendar.Date := ⟨year, month - 1, day⟩
  let seconds := (hour * 60 + minute) * 60 + second
  if checked : (1 ≤ year ∧ year ≤ 9999) ∧ 1 ≤ month ∧ date.Valid ∧
      (hour < 24 ∧ minute < 60 ∧ second < 60) ∧ microsecond < 1000000 ∧
        ∀ difference ∈ offset, |difference| < microsecondsPerDay then
    some {
      date := date
      seconds := seconds
      microsecond := microsecond
      offset := offset
      valid := checked.2.2.1
      year := by
        obtain ⟨low, high⟩ := checked.1
        exact ⟨Int.ofNat_le.mpr low, Int.ofNat_le.mpr high⟩
      inDay := by
        have := checked.2.2.2.1
        simp only [seconds]
        omega
      inSecond := checked.2.2.2.2.1
      inOffset := checked.2.2.2.2.2 }
  else none

/-! ## Writing -/

/-- `HH:MM`, with the seconds and microseconds that are not zero. -/
def offsetText (difference : ℤ) : List Char :=
  let microseconds := difference.natAbs
  let seconds := microseconds / 1000000
  (if difference < 0 then '-' else '+') :: (Decimal.padded 2 (seconds / 3600) ++
    ':' :: (Decimal.padded 2 (seconds / 60 % 60) ++
      if microseconds % 60000000 = 0 then []
      else ':' :: (Decimal.padded 2 (seconds % 60) ++
        if microseconds % 1000000 = 0 then []
        else '.' :: Decimal.padded 6 (microseconds % 1000000))))

def Datetime.isoformat (moment : Datetime) : List Char :=
  dateText moment.date ++ 'T' :: (clockText moment.seconds ++
    ((if moment.microsecond = 0 then [] else '.' :: Decimal.padded 6 moment.microsecond) ++
      moment.offset.elim [] offsetText))

/-! ## Reading -/

def digit : Pattern := .char Char.isDigit

/-- A field of a fixed number of digits. -/
def field (width index : ℕ) : Pattern := .group index (.times width digit)

/-- `HH[:MM[:SS[.fff[fff]]]]` in four groups -/
def isoClock : Pattern :=
  .seq (field 2 4) (.opt (.seq (.lit ':') (.seq (field 2 5) (.opt (.seq (.lit ':')
    (.seq (field 2 6) (.opt (.seq (.lit '.')
      (.group 7 (.alt (.times 6 digit) (.times 3 digit)))))))))))

/-- `+HH:MM[:SS[.ffffff]]`, a sign and four groups -/
def isoOffset : Pattern :=
  .seq (.group 8 (.char fun c => c = '+' ∨ c = '-')) (.seq (field 2 9) (.seq (.lit ':')
    (.seq (field 2 10) (.opt (.seq (.lit ':') (.seq (field 2 11) (.opt (.seq (.lit '.')
      (field 6 12)))))))))

/-- `YYYY-MM-DD[*HH[:MM[:SS[.fff[fff]]]][+HH:MM[:SS[.ffffff]]]]` -/
def isoPattern : Pattern :=
  .seq (field 4 1) (.seq (.lit '-') (.seq (field 2 2) (.seq (.lit '-') (.seq (field 2 3)
    (.opt (.seq (.char fun _ => true) (.seq isoClock (.opt isoOffset))))))))

/-- `int(match[index])`, and a default for a group that took no part. -/
def number (m : Cursor) (index missing : ℕ) : ℕ :=
  (m.text index).elim missing fun text => Decimal.value ((text.map toAscii).filter Char.isDigit)

/-- Three decimals of the second stand for milliseconds. -/
def microseconds (m : Cursor) : ℕ :=
  if (m.text 7).map List.length = some 3 then number m 7 0 * 1000 else number m 7 0

def offset (m : Cursor) : Option ℤ :=
  (m.text 8).map fun sign =>
    let seconds := (number m 9 0 * 60 + number m 10 0) * 60 + number m 11 0
    let difference : ℤ := seconds * 1000000 + number m 12 0
    if sign = ['-'] then -difference else difference

/-- `datetime.fromisoformat(text)`, none for a ValueError. -/
def fromisoformat (text : List Char) : Option Datetime := do
  let m ← isoPattern.fullmatch text
  Datetime.of (number m 1 0) (number m 2 0) (number m 3 0) (number m 4 0) (number m 5 0)
    (number m 6 0) (microseconds m) (offset m)

/-- `\d`, which also takes the digits of other scripts. -/
def anyDigit : Pattern := .char isDecimal

def range (low high : Char) : Pattern := .char fun c => low ≤ c ∧ c ≤ high

/-- The pattern of a directive of `strptime`. -/
def directive : Char → Pattern
  | 'Y' => .group 1 (.times 4 anyDigit)
  | 'm' => .group 2 (.oneOf [.seq (.lit '1') (range '0' '2'), .seq (.lit '0') (range '1' '9'),
      range '1' '9'])
  | 'd' => .group 3 (.oneOf [.seq (.lit '3') (range '0' '1'), .seq (range '1' '2') anyDigit,
      .seq (.lit '0') (range '1' '9'), range '1' '9', .seq (.lit ' ') (range '1' '9')])
  | 'H' => .group 4 (.oneOf [.seq (.lit '2') (range '0' '3'), .seq (range '0' '1') anyDigit,
      anyDigit])
  | 'M' => .group 5 (.oneOf [.seq (range '0' '5') anyDigit, anyDigit])
  | 'S' => .group 6 (.oneOf [.seq (.lit '6') (range '0' '1'), .seq (range '0' '5') anyDigit,
      anyDigit])
  | _ => .char fun _ => false

/-- The pattern of a format; a blank stands for any blanks. -/
def formatPattern : List Char → Pattern
  | '%' :: c :: rest => .seq (directive c) (formatPattern rest)
  | c :: rest => .seq (if isSpace c then .plus (.char isSpace) else .litI c) (formatPattern rest)
  | [] => .empty

/-- `datetime.strptime(text, format)`, none for a ValueError. -/
def strptime (text format : List Char) : Option Datetime := do
  let m ← ((formatPattern format).run (.start [] text)).head?
  guard (m.rest = [])
  Datetime.of (number m 1 1900) (number m 2 1) (number m 3 1) (number m 4 0) (number m 5 0)
    (number m 6 0) 0 none

/-! ## What is written is read -/

section RoundTrip

variable {before rest : List Char} {groups : ℕ → Option Capture}

/-- A field takes the digits of a padded number. -/
theorem first_field (width index n : ℕ) :
    First (field width index) ⟨before, Decimal.padded width n ++ rest, groups⟩
      ⟨(Decimal.padded width n).reverse ++ before, rest,
        Function.update groups index (some ⟨before, Decimal.padded width n⟩)⟩ :=
  First.group_word index (first_times_char (Decimal.length_padded width n)
    fun _ member => Decimal.isDigit_of_mem_padded member)

theorem number_padded {m : Cursor} {index missing width n : ℕ} (fits : n < 10 ^ width)
    (captured : m.groups index = some ⟨before, Decimal.padded width n⟩) :
    number m index missing = n := by
  have ascii : (Decimal.padded width n).map toAscii = Decimal.padded width n := by
    refine (List.map_congr_left fun c member => ?_).trans (List.map_id _)
    exact toAscii_of_isDigit (Decimal.isDigit_of_mem_padded member)
  have digits : (Decimal.padded width n).filter Char.isDigit = Decimal.padded width n :=
    List.filter_eq_self.mpr fun c member => Decimal.isDigit_of_mem_padded member
  rw [number, Cursor.text, captured, Option.map_some, Option.elim_some, ascii, digits,
    Decimal.value_padded_of_lt fits]

theorem number_missing {m : Cursor} {index missing : ℕ} (absent : m.groups index = none) :
    number m index missing = missing := by
  rw [number, Cursor.text, absent, Option.map_none, Option.elim_none]

/-- A datetime is made of its parts. -/
theorem Datetime.of_parts (moment : Datetime) :
    Datetime.of moment.date.year.natAbs (moment.date.month + 1) moment.date.day
      (moment.seconds / 3600) (moment.seconds / 60 % 60) (moment.seconds % 60)
        moment.microsecond moment.offset = some moment := by
  obtain ⟨low, high⟩ := moment.year
  have inDay := moment.inDay
  have year : ((moment.date.year.natAbs : ℕ) : ℤ) = moment.date.year := by omega
  have date : (⟨(moment.date.year.natAbs : ℕ), moment.date.month + 1 - 1, moment.date.day⟩ :
      Calendar.Date) = moment.date := by
    rw [year, Nat.add_sub_cancel]
  have seconds : (moment.seconds / 3600 * 60 + moment.seconds / 60 % 60) * 60 +
      moment.seconds % 60 = moment.seconds := by omega
  unfold Datetime.of
  simp only [date, seconds]
  rw [dif_pos ⟨by omega, Nat.succ_pos _, moment.valid, by omega, moment.inSecond,
    moment.inOffset⟩]

/-- The decimals of the second, when they are not zero. -/
def fractionText (microsecond : ℕ) : List Char :=
  if microsecond = 0 then [] else '.' :: Decimal.padded 6 microsecond

/-- A literal character is not found where another one or nothing follows. -/
theorem run_lit_eq_nil {c : Char} {after : Pattern} {cursor : Cursor}
    (other : ∀ d ∈ cursor.rest.head?, d ≠ c) : (Pattern.seq (.lit c) after).run cursor = [] := by
  apply run_seq_eq_nil_left
  apply run_char_eq_nil
  intro d member
  exact decide_eq_false (other d member)

/-- The date fields of a text, and what is left to match after them. -/
theorem first_isoDate (year month day : ℕ) :
    ∃ before groups,
      (∃ before, groups 1 = some ⟨before, Decimal.padded 4 year⟩) ∧
      (∃ before, groups 2 = some ⟨before, Decimal.padded 2 month⟩) ∧
      (∃ before, groups 3 = some ⟨before, Decimal.padded 2 day⟩) ∧
      (∀ index, 3 < index → groups index = none) ∧
      ∀ after final, First after ⟨before, rest, groups⟩ final →
        First (.seq (field 4 1) (.seq (.lit '-') (.seq (field 2 2) (.seq (.lit '-')
          (.seq (field 2 3) after))))) (.start [] (Decimal.padded 4 year ++
            '-' :: (Decimal.padded 2 month ++ '-' :: (Decimal.padded 2 day ++ rest)))) final := by
  refine ⟨_, _, ⟨_, rfl⟩, ⟨_, rfl⟩, ⟨_, rfl⟩, ?_, fun after final found =>
    First.seq (first_field 4 1 year) (First.seq (first_char (decide_eq_true rfl))
      (First.seq (first_field 2 2 month) (First.seq (first_char (decide_eq_true rfl))
        (First.seq (first_field 2 3 day) found))))⟩
  intro index later
  rw [Function.update_of_ne (by omega), Function.update_of_ne (by omega),
    Function.update_of_ne (by omega)]

/-- The fields of a time of day, and what is left to match after them. -/
theorem first_clockFields (seconds : ℕ) :
    ∃ before' groups',
      (∃ before, groups' 4 = some ⟨before, Decimal.padded 2 (seconds / 3600)⟩) ∧
      (∃ before, groups' 5 = some ⟨before, Decimal.padded 2 (seconds / 60 % 60)⟩) ∧
      (∃ before, groups' 6 = some ⟨before, Decimal.padded 2 (seconds % 60)⟩) ∧
      (∀ index, index ∉ [4, 5, 6] → groups' index = groups index) ∧
      ∀ after final, First after ⟨before', rest, groups'⟩ final →
        First (.seq (field 2 4) (.opt (.seq (.lit ':') (.seq (field 2 5) (.opt (.seq (.lit ':')
          (.seq (field 2 6) after))))))) ⟨before, clockText seconds ++ rest, groups⟩ final := by
  simp only [clockText, List.append_assoc, List.cons_append]
  refine ⟨_, _, ⟨_, rfl⟩, ⟨_, rfl⟩, ⟨_, rfl⟩, ?_, fun after final found =>
    First.seq (first_field 2 4 _) (First.opt (First.seq (first_char (decide_eq_true rfl))
      (First.seq (first_field 2 5 _) (First.opt (First.seq (first_char (decide_eq_true rfl))
        (First.seq (first_field 2 6 _) found))))))⟩
  intro index other
  simp only [List.mem_cons, List.not_mem_nil, or_false, not_or] at other
  rw [Function.update_of_ne other.2.2, Function.update_of_ne other.2.1,
    Function.update_of_ne other.1]

/-- The decimals of the second, and what is left to match after them. -/
theorem first_fraction (microsecond : ℕ) (unset : groups 7 = none)
    (stops : ∀ c ∈ rest.head?, c ≠ '.') :
    ∃ before' groups',
      (groups' 7).map Capture.text =
        (if microsecond = 0 then none else some (Decimal.padded 6 microsecond)) ∧
      (∀ index, index ≠ 7 → groups' index = groups index) ∧
      First (.opt (.seq (.lit '.') (.group 7 (.alt (.times 6 digit) (.times 3 digit)))))
        ⟨before, fractionText microsecond ++ rest, groups⟩ ⟨before', rest, groups'⟩ := by
  by_cases zero : microsecond = 0
  · rw [fractionText, if_pos zero, if_pos zero, List.nil_append]
    exact ⟨before, groups, by rw [unset, Option.map_none], fun _ _ => rfl,
      first_opt_of_nil (run_lit_eq_nil stops)⟩
  · rw [fractionText, if_neg zero, if_neg zero, List.cons_append]
    refine ⟨_, Function.update groups 7 (some ⟨'.' :: before, Decimal.padded 6 microsecond⟩), ?_,
      ?_, First.opt (First.seq (first_char (decide_eq_true rfl)) (First.group_word 7
        (First.alt (first_times_char (Decimal.length_padded 6 microsecond)
          fun _ member => Decimal.isDigit_of_mem_padded member))))⟩
    · rw [Function.update_self, Option.map_some]
    · intro index other
      exact Function.update_of_ne other _ _

/-- The seconds of an offset, which are written when they are not zero. -/
theorem first_offsetSeconds (microseconds : ℕ)
    (unset : ∀ index, 11 ≤ index → groups index = none) :
    ∃ final, First (.opt (.seq (.lit ':') (.seq (field 2 11) (.opt (.seq (.lit '.')
          (field 6 12))))))
        ⟨before, if microseconds % 60000000 = 0 then []
          else ':' :: (Decimal.padded 2 (microseconds / 1000000 % 60) ++
            if microseconds % 1000000 = 0 then []
            else '.' :: Decimal.padded 6 (microseconds % 1000000)), groups⟩ final ∧
      final.rest = [] ∧ number final 11 0 = microseconds / 1000000 % 60 ∧
      number final 12 0 = microseconds % 1000000 ∧
      ∀ index, index < 11 → final.groups index = groups index := by
  by_cases whole : microseconds % 60000000 = 0
  · rw [if_pos whole]
    refine ⟨_, first_opt_of_nil (run_lit_eq_nil (by simp)), rfl, ?_, ?_,
      fun _ _ => rfl⟩
    · exact (number_missing (unset 11 le_rfl)).trans (by omega)
    · exact (number_missing (unset 12 (by decide))).trans (by omega)
  rw [if_neg whole]
  by_cases none : microseconds % 1000000 = 0
  · rw [if_pos none, ← List.append_nil (Decimal.padded 2 _)]
    refine ⟨_, First.opt (First.seq (first_char (decide_eq_true rfl))
      (First.seq (first_field 2 11 _) (first_opt_of_nil (run_lit_eq_nil (by simp))))), rfl,
      ?_, ?_, ?_⟩
    · exact number_padded (by omega) rfl
    · refine (number_missing ?_).trans none.symm
      simpa using unset 12 (by decide)
    · intro index earlier
      exact Function.update_of_ne (by omega) _ _
  · rw [if_neg none, ← List.append_nil (Decimal.padded 6 _)]
    refine ⟨_, First.opt (First.seq (first_char (decide_eq_true rfl))
      (First.seq (first_field 2 11 _) (First.opt (First.seq (first_char (decide_eq_true rfl))
        (first_field 6 12 _))))), rfl, ?_, ?_, ?_⟩
    · exact number_padded (by omega) rfl
    · exact number_padded (by omega) rfl
    · intro index earlier
      exact (Function.update_of_ne (by omega) _ _).trans (Function.update_of_ne (by omega) _ _)

theorem microseconds_of_text {m : Cursor} {microsecond : ℕ} (small : microsecond < 1000000)
    (decimals : m.text 7 =
      if microsecond = 0 then none else some (Decimal.padded 6 microsecond)) :
    microseconds m = microsecond := by
  by_cases zero : microsecond = 0
  · rw [if_pos zero] at decimals
    rw [microseconds, decimals, Option.map_none, if_neg (by simp), number, decimals,
      Option.elim_none, zero]
  · rw [if_neg zero] at decimals
    obtain ⟨capture, captured, text⟩ := Option.map_eq_some_iff.mp decimals
    obtain ⟨before, rfl⟩ : ∃ before, capture = ⟨before, Decimal.padded 6 microsecond⟩ :=
      ⟨capture.before, by rw [← text]⟩
    rw [microseconds, decimals, Option.map_some, Decimal.length_padded, if_neg (by simp),
      number_padded (by omega) captured]

/-- The sign, the hours and the minutes of an offset, and what is left to match after them. -/
theorem first_offsetFields {sign : Char} (isSign : sign = '+' ∨ sign = '-') (hours minutes : ℕ) :
    ∃ before' groups',
      (∃ before, groups' 8 = some ⟨before, [sign]⟩) ∧
      (∃ before, groups' 9 = some ⟨before, Decimal.padded 2 hours⟩) ∧
      (∃ before, groups' 10 = some ⟨before, Decimal.padded 2 minutes⟩) ∧
      (∀ index, index ∉ [8, 9, 10] → groups' index = groups index) ∧
      ∀ after final, First after ⟨before', rest, groups'⟩ final →
        First (.seq (.group 8 (.char fun c => c = '+' ∨ c = '-')) (.seq (field 2 9) (.seq (.lit ':')
          (.seq (field 2 10) after)))) ⟨before, sign :: (Decimal.padded 2 hours ++
            ':' :: (Decimal.padded 2 minutes ++ rest)), groups⟩ final := by
  have signGroup : ∀ rest : List Char, First (.group 8 (.char fun c => c = '+' ∨ c = '-'))
      ⟨before, sign :: rest, groups⟩
      ⟨sign :: before, rest, Function.update groups 8 (some ⟨before, [sign]⟩)⟩ := fun rest =>
    @First.group_word _ before (sign :: before) [sign] rest groups groups 8
      (first_char (decide_eq_true isSign))
  refine ⟨_, _, ⟨_, rfl⟩, ⟨_, rfl⟩, ⟨_, rfl⟩, ?_, fun after final found =>
    First.seq (signGroup _) (First.seq (first_field 2 9 _) (First.seq
      (first_char (decide_eq_true rfl)) (First.seq (first_field 2 10 _) found)))⟩
  intro index other
  simp only [List.mem_cons, List.not_mem_nil, or_false, not_or] at other
  rw [Function.update_of_ne other.2.2, Function.update_of_ne other.2.1,
    Function.update_of_ne other.1]

theorem first_isoOffset {difference : ℤ} (small : |difference| < microsecondsPerDay)
    (unset : ∀ index, 8 ≤ index → groups index = none) :
    ∃ final, First isoOffset ⟨before, offsetText difference, groups⟩ final ∧ final.rest = [] ∧
      (∀ index, index < 8 → final.groups index = groups index) ∧
      offset final = some difference := by
  have inDay : difference.natAbs < 86400000000 := by
    rw [Int.abs_eq_natAbs, microsecondsPerDay] at small
    omega
  have isSign : (if difference < 0 then '-' else '+') = '+' ∨
      (if difference < 0 then '-' else '+') = '-' := by
    split
    · exact Or.inr rfl
    · exact Or.inl rfl
  obtain ⟨before', groups', ⟨_, sign⟩, ⟨_, hours⟩, ⟨_, minutes⟩, others, continues⟩ :=
    @first_offsetFields before _ groups _ isSign (difference.natAbs / 1000000 / 3600)
      (difference.natAbs / 1000000 / 60 % 60)
  obtain ⟨final, tail, stopped, second, microsecond, others'⟩ :=
    @first_offsetSeconds before' groups' difference.natAbs (by
      intro index later
      rw [others index (by simp; omega), unset index (by omega)])
  refine ⟨final, continues _ final tail, stopped, ?_, ?_⟩
  · intro index earlier
    rw [others' index (by omega), others index (by simp; omega)]
  · rw [← others' 8 (by decide)] at sign
    rw [← others' 9 (by decide)] at hours
    rw [← others' 10 (by decide)] at minutes
    rw [offset, Cursor.text, sign, Option.map_some, Option.map_some, second, microsecond,
      number_padded (by omega) hours, number_padded (by omega) minutes]
    have total : ((difference.natAbs / 1000000 / 3600 * 60 +
        difference.natAbs / 1000000 / 60 % 60) * 60 + difference.natAbs / 1000000 % 60) * 1000000 +
          difference.natAbs % 1000000 = difference.natAbs := by omega
    have magnitude : ((_ : ℕ) : ℤ) = difference.natAbs := congrArg Nat.cast total
    rw [Nat.cast_add, Nat.cast_mul, Nat.cast_ofNat] at magnitude
    simp only [magnitude]
    by_cases negative : difference < 0
    · rw [if_pos negative, if_pos rfl]
      congr 1
      omega
    · rw [if_neg negative, if_neg (by decide)]
      congr 1
      omega

/-- The offset of a datetime, if it has one. -/
theorem first_optOffset (moment : Datetime) (unset : ∀ index, 8 ≤ index → groups index = none) :
    ∃ final, First (.opt isoOffset) ⟨before, moment.offset.elim [] offsetText, groups⟩ final ∧
      final.rest = [] ∧ (∀ index, index < 8 → final.groups index = groups index) ∧
      offset final = moment.offset := by
  cases given : moment.offset with
  | none =>
      have fails : isoOffset.run ⟨before, [], groups⟩ = [] := by
        apply run_seq_eq_nil_left
        rw [run_group, run_char_eq_nil (by simp), List.map_nil]
      refine ⟨_, first_opt_of_nil fails, rfl, fun _ _ => rfl, ?_⟩
      have noSign : Cursor.text ⟨before, [], groups⟩ 8 = none := congrArg _ (unset 8 le_rfl)
      exact congrArg _ noSign
  | some difference =>
      obtain ⟨final, found, stopped, others, read⟩ :=
        @first_isoOffset before groups difference (moment.inOffset difference given) unset
      exact ⟨final, found.opt, stopped, others, read⟩

theorem Datetime.head_offsetText (moment : Datetime) :
    ∀ c ∈ (moment.offset.elim [] offsetText).head?, c ≠ '.' := by
  intro c member
  cases given : moment.offset with
  | none =>
      rw [given] at member
      cases member
  | some difference =>
      rw [given, Option.elim_some, offsetText, List.head?_cons] at member
      obtain rfl := Option.some.inj member
      split <;> decide

/-- The text of a datetime is read, with any separator between the date and the time. -/
theorem fromisoformat_text (moment : Datetime) (separator : Char) :
    fromisoformat (dateText moment.date ++ separator :: (clockText moment.seconds ++
      (fractionText moment.microsecond ++ moment.offset.elim [] offsetText))) = some moment := by
  obtain ⟨low, high⟩ := moment.year
  have month := moment.valid.month_lt
  have day := moment.valid.day_le
  have inDay := moment.inDay
  have inSecond := moment.inSecond
  have year : Calendar.yearText moment.date.year = Decimal.padded 4 moment.date.year.natAbs :=
    if_pos ⟨by omega, high⟩
  rw [dateText, year, List.append_assoc, List.cons_append, List.append_assoc, List.cons_append]
  obtain ⟨before, groups, ⟨_, yearGroup⟩, ⟨_, monthGroup⟩, ⟨_, dayGroup⟩, unset, continues⟩ :=
    @first_isoDate (separator :: (clockText moment.seconds ++
      (fractionText moment.microsecond ++ moment.offset.elim [] offsetText)))
      moment.date.year.natAbs (moment.date.month + 1) moment.date.day
  have any : First (.char fun _ => true) ⟨before, separator :: (clockText moment.seconds ++
      (fractionText moment.microsecond ++ moment.offset.elim [] offsetText)), groups⟩
      ⟨separator :: before, clockText moment.seconds ++
        (fractionText moment.microsecond ++ moment.offset.elim [] offsetText), groups⟩ :=
    first_char rfl
  obtain ⟨before', groups', ⟨_, hour⟩, ⟨_, minute⟩, ⟨_, second⟩, others, clock⟩ :=
    @first_clockFields (separator :: before) (fractionText moment.microsecond ++
      moment.offset.elim [] offsetText) groups moment.seconds
  obtain ⟨before'', groups'', decimals, others', fraction⟩ :=
    @first_fraction before' (moment.offset.elim [] offsetText) groups' moment.microsecond
      (by rw [others 7 (by decide), unset 7 (by decide)]) moment.head_offsetText
  obtain ⟨final, offsetFound, stopped, others'', offsetRead⟩ :=
    @first_optOffset before'' groups'' moment (fun index later => by
      rw [others' index (by omega), others index (by simp; omega), unset index (by omega)])
  have matched : isoPattern.fullmatch _ = some final :=
    fullmatch_of_first (continues _ _ (First.opt (First.seq any
      (First.seq (clock _ _ fraction) offsetFound)))) stopped
  have kept : ∀ index, index < 7 → final.groups index = groups' index := by
    intro index earlier
    rw [others'' index (by omega), others' index (by omega)]
  rw [← others 1 (by decide), ← kept 1 (by decide)] at yearGroup
  rw [← others 2 (by decide), ← kept 2 (by decide)] at monthGroup
  rw [← others 3 (by decide), ← kept 3 (by decide)] at dayGroup
  rw [← kept 4 (by decide)] at hour
  rw [← kept 5 (by decide)] at minute
  rw [← kept 6 (by decide)] at second
  rw [← others'' 7 (by decide)] at decimals
  simp only [fromisoformat, matched, Option.bind_eq_bind, Option.bind_some, offsetRead]
  rw [number_padded (by omega) yearGroup, number_padded (by omega) monthGroup,
    number_padded (by omega) dayGroup, number_padded (by omega) hour,
    number_padded (by omega) minute, number_padded (by omega) second,
    microseconds_of_text inSecond decimals]
  exact moment.of_parts

theorem fromisoformat_isoformat (moment : Datetime) :
    fromisoformat moment.isoformat = some moment :=
  fromisoformat_text moment 'T'

/-- A date and a time of day are read with any separator between them. -/
theorem fromisoformat_naive {moment : Datetime} (naive : moment.offset = none)
    (whole : moment.microsecond = 0) (separator : Char) :
    fromisoformat (dateText moment.date ++ separator :: clockText moment.seconds) =
      some moment := by
  have read := fromisoformat_text moment separator
  rwa [naive, whole, fractionText, if_pos rfl, Option.elim_none, List.append_nil,
    List.append_nil] at read

end RoundTrip

end BirrTrack.Python
