import BirrTrack.OcrService.Parser
import BirrTrack.Python.Formats

/-! # The accepted timestamp formats

A date and time that the language model writes in any of `TIMESTAMP_FORMATS` is normalized to that
date and time. No format that is tried earlier reads it as something else.
-/

namespace BirrTrack.OcrService

open Python

theorem formats_readable : ∀ format ∈ TIMESTAMP_FORMATS, readable format.toList = true ∧
    format.toList.head? = some '%' ∧ ∀ c ∈ ['Y', 'm', 'd'], uses format.toList c = true := by
  decide +kernel

/-- The day stands first in a format. -/
def dayFirst (format : String) : Bool :=
  format.toList.take 3 = "%d/".toList || format.toList.take 3 = "%d-".toList

/-- A format does not read what another one writes: it has other marks, or the year first and not
the day. -/
def Apart (earlier later : String) : Prop :=
  formatMarks earlier.toList ≠ formatMarks later.toList ∨
    earlier.toList.take 2 = "%Y".toList ∧ dayFirst later = true

instance (earlier later : String) : Decidable (Apart earlier later) :=
  inferInstanceAs (Decidable (_ ∨ _))

theorem formats_apart : TIMESTAMP_FORMATS.Pairwise Apart := by decide +kernel

section Formats

variable {earlier later : String} (moment : Datetime)

/-- A text with the day first has a mark at its third place. -/
theorem written_dayFirst (isDayFirst : dayFirst later = true) :
    ∃ c rest, moment.written later.toList = Decimal.padded 2 moment.date.day ++ c :: rest ∧
      isDecimal c = false ∧ c.isDigit = false := by
  have split : ∀ mark : Char, later.toList.take 3 = ['%', 'd', mark] → mark ≠ '%' →
      ∃ rest, moment.written later.toList = Decimal.padded 2 moment.date.day ++ mark :: rest := by
    intro mark front other
    have whole := List.take_append_drop 3 later.toList
    rw [front] at whole
    rw [← whole]
    refine ⟨moment.written (later.toList.drop 3), ?_⟩
    rw [List.cons_append, List.cons_append, Datetime.written, List.cons_append,
      written_cons moment other]
    rfl
  rcases Bool.or_eq_true_iff.mp isDayFirst with slash | minus
  · obtain ⟨rest, text⟩ := split '/' (of_decide_eq_true slash) (by decide)
    exact ⟨'/', rest, text, by decide, by decide⟩
  · obtain ⟨rest, text⟩ := split '-' (of_decide_eq_true minus) (by decide)
    exact ⟨'-', rest, text, by decide, by decide⟩

theorem strptime_of_apart (apart : Apart earlier later)
    (isReadable : readable earlier.toList = true) (isReadable' : readable later.toList = true) :
    strptime (moment.written later.toList) earlier.toList = none := by
  rcases apart with marks | ⟨yearFirst, isDayFirst⟩
  · refine strptime_eq_none_of_marks isReadable ?_
    rw [marksOf_written moment isReadable']
    exact marks.symm
  · obtain ⟨c, rest, text, noDigit, -⟩ := written_dayFirst moment isDayFirst
    have whole := List.take_append_drop 2 earlier.toList
    rw [yearFirst] at whole
    rw [text, ← whole]
    exact strptime_year_eq_none (by rw [Decimal.length_padded]; decide) noDigit

theorem fromisoformat_of_dayFirst {format : String} (isDayFirst : dayFirst format = true) :
    fromisoformat (moment.written format.toList) = none := by
  obtain ⟨c, rest, text, -, noDigit⟩ := written_dayFirst moment isDayFirst
  rw [text]
  exact fromisoformat_of_early (by rw [Decimal.length_padded]; decide) noDigit

theorem fromisoformat_of_slash {rest : List Char} :
    fromisoformat (moment.written ("%Y/".toList ++ rest)) = none :=
  fromisoformat_of_mark (Decimal.length_padded 4 _) (by decide)

/-- A date and a whole time of day. -/
def wholeFormat (separator : Char) : List Char :=
  '%' :: 'Y' :: '-' :: '%' :: 'm' :: '-' :: '%' :: 'd' :: separator ::
    '%' :: 'H' :: ':' :: '%' :: 'M' :: ':' :: '%' :: 'S' :: []

/-- They are read with either separator. -/
theorem fromisoformat_seconds {separator : Char} (known : separator = 'T' ∨ separator = ' ') :
    fromisoformat (moment.written (wholeFormat separator)) =
      some (moment.cut (wholeFormat separator)) := by
  obtain ⟨low, high⟩ := moment.year
  have mark : separator ≠ '%' := by rcases known with rfl | rfl <;> decide
  have year : Calendar.yearText moment.date.year = Decimal.padded 4 moment.date.year.natAbs :=
    if_pos ⟨by omega, high⟩
  have text : moment.written (wholeFormat separator) =
      Calendar.dateText moment.date ++ separator :: Calendar.clockText moment.seconds := by
    have minus : '-' ≠ '%' := by decide
    have colon : ':' ≠ '%' := by decide
    rw [Calendar.dateText, year, Calendar.clockText, wholeFormat]
    simp only [Datetime.written, written_cons moment mark, written_cons moment minus,
      written_cons moment colon, Datetime.part, List.append_assoc, List.cons_append,
      List.append_nil]
    rfl
  have kept : (moment.cut (wholeFormat separator)).seconds = moment.seconds := by
    have used : ∀ c ∈ ['H', 'M', 'S'], uses (wholeFormat separator) c = true := by
      rcases known with rfl | rfl <;> decide
    change keptSeconds _ moment.seconds = moment.seconds
    rw [keptSeconds, used 'H' (by decide), used 'M' (by decide), used 'S' (by decide)]
    simp only [↓reduceIte]
    omega
  rw [text, ← kept]
  exact @fromisoformat_naive (moment.cut _) rfl rfl separator

/-- An ISO text is read as a format that writes it means it, and no other format writes one. -/
theorem fromisoformat_written {format : String} (listed : format ∈ TIMESTAMP_FORMATS) :
    fromisoformat (moment.written format.toList) = some (moment.cut format.toList) ∨
      fromisoformat (moment.written format.toList) = none := by
  simp only [TIMESTAMP_FORMATS, List.mem_cons, List.not_mem_nil, or_false] at listed
  rcases listed with rfl | rfl | rfl | rfl | rfl | rfl | rfl | rfl | rfl | rfl | rfl | rfl
  · exact Or.inl (fromisoformat_seconds moment (Or.inl rfl))
  · exact Or.inl (fromisoformat_seconds moment (Or.inr rfl))
  · exact Or.inl (fromisoformat_minutes moment)
  · exact Or.inr (fromisoformat_of_slash moment)
  · exact Or.inr (fromisoformat_of_slash moment)
  · exact Or.inr (fromisoformat_of_dayFirst moment (by decide))
  · exact Or.inr (fromisoformat_of_dayFirst moment (by decide))
  · exact Or.inr (fromisoformat_of_dayFirst moment (by decide))
  · exact Or.inr (fromisoformat_of_dayFirst moment (by decide))
  · exact Or.inl (fromisoformat_date moment)
  · exact Or.inr (fromisoformat_of_dayFirst moment (by decide))
  · exact Or.inr (fromisoformat_of_dayFirst moment (by decide))

end Formats

/-- In white space or not, what one of the formats writes is normalized to the date and time that
it means, to the precision of the format. The years are those of four digits. -/
theorem normalizeTimestamp_written {format : String} (listed : format ∈ TIMESTAMP_FORMATS)
    {moment : Datetime} (fourDigits : 1000 ≤ moment.date.year) {front back : List Char}
    (white : White front) (white' : White back) :
    normalizeTimestamp (some (front ++ (moment.strftime format.toList ++ back))) =
      some (moment.cut format.toList).isoformat := by
  rw [strftime_eq_written fourDigits]
  obtain ⟨isReadable, field, dated⟩ := formats_readable format listed
  have stripped := written_stripped moment isReadable field
  have nonempty : moment.written format.toList ≠ [] := by
    obtain ⟨c, later, split⟩ := exists_field isReadable field
    rw [split]
    exact written_ne_nil moment
  have text : normalizeString (some (front ++ (moment.written format.toList ++ back))) =
      some (moment.written format.toList) := by
    simp only [normalizeString, Option.bind_eq_bind, Option.bind_some,
      strip_of_white white white' nonempty stripped, nonempty, ↓reduceIte]
  have noZulu : (moment.written format.toList).flatMap
      (fun c => if c = 'Z' then "+00:00".toList else [c]) = moment.written format.toList := by
    have each : ∀ c ∈ moment.written format.toList,
        (if c = 'Z' then "+00:00".toList else [c]) = [c] := by
      intro c member
      rw [if_neg]
      rintro rfl
      have kinds := mem_written moment isReadable 'Z' member
      revert kinds
      decide
    rw [List.flatMap_congr each, List.flatMap_singleton']
  have tried : TIMESTAMP_FORMATS.findSome? (fun pattern =>
      (strptime (moment.written format.toList) pattern.toList).map Datetime.isoformat) =
        some (moment.cut format.toList).isoformat := by
    obtain ⟨earlier, others, split⟩ := List.append_of_mem listed
    have apart := formats_apart
    rw [split, List.pairwise_append] at apart
    rw [List.findSome?_eq_some_iff]
    refine ⟨earlier, format, others, split, ?_, ?_⟩
    · rw [strptime_written moment isReadable dated, Option.map_some]
    · intro other member
      have listed' : other ∈ TIMESTAMP_FORMATS := by
        rw [split]
        exact List.mem_append_left _ member
      rw [strptime_of_apart moment (apart.2.2 other member format List.mem_cons_self)
        (formats_readable other listed').1 isReadable, Option.map_none]
  simp only [normalizeTimestamp, text, Option.bind_eq_bind, Option.bind_some, noZulu]
  rcases fromisoformat_written moment listed with read | rejected
  · rw [read]
    rfl
  · rw [rejected]
    exact tried

/-- A day that could be a month is read as the day. -/
theorem normalizeTimestamp_sample :
    normalizeTimestamp (some "\n04/06/2024 10:30".toList) = some "2024-06-04T10:30:00".toList := by
  obtain ⟨moment, made⟩ := Option.isSome_iff_exists.mp
    (show (Datetime.of 2024 6 4 10 30 45 0 none).isSome = true from rfl)
  have white : White "\n".toList := List.forall_mem_singleton.mpr (by decide)
  have fourDigits : 1000 ≤ moment.date.year := by
    cases made
    decide
  have read := normalizeTimestamp_written (by decide : "%d/%m/%Y %H:%M" ∈ TIMESTAMP_FORMATS)
    fourDigits white fun _ member => absurd member List.not_mem_nil
  cases made
  exact read

end BirrTrack.OcrService
