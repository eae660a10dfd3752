import BirrTrack.OcrService.Renormalization
import BirrTrack.Processing.TimestampPaths

/-! # The instants of normalized timestamps

The OCR service writes a timestamp as a Python datetime in ISO format, and the backend reads that
text as an ECMAScript date. The two agree on a datetime with an offset of whole minutes to the
millisecond. A datetime without an offset is read in the server's local time, and an offset with
seconds is not in the date-time string format.
-/

namespace BirrTrack.Processing

open Js Database Readers
open Python (Datetime fractionText offsetText)

/-! ## The parts after the time of day -/

section Readers

variable {rest : List Char}

/-- An engine reads the decimals of a second to the millisecond. -/
theorem isoFraction_fractionText {microsecond : ℕ} (inSecond : microsecond < 1000000)
    (ends : ∀ c ∈ rest.head?, c.isDigit = false ∧ c ≠ '.') :
    ∃ fraction, isoFraction (fractionText microsecond ++ rest) = some (fraction, rest) ∧
      Decimal.value ((fraction ++ ['0', '0', '0']).take 3) = microsecond / 1000 := by
  by_cases whole : microsecond = 0
  · have noPoint : skip '.' rest = some (false, rest) := by
      cases rest with
      | nil => rfl
      | cons c rest => exact skip_ne (ends c rfl).2
    refine ⟨[], ?_, ?_⟩
    · rw [fractionText, if_pos whole, List.nil_append, isoFraction, reader_bind, noPoint]
      rfl
    · rw [whole]
      rfl
  · have all : ∀ c ∈ Decimal.padded 6 microsecond, c.isDigit = true :=
      fun _ member => Decimal.isDigit_of_mem_padded member
    obtain ⟨taken, dropped⟩ := Decimal.takeWhile_isDigit_append all fun c head => (ends c head).1
    have nonempty : Decimal.padded 6 microsecond ≠ [] := by
      rw [← List.length_pos_iff, Decimal.length_padded]
      decide
    have front : Decimal.padded 6 microsecond = Decimal.padded 3 (microsecond / 10 / 10 / 10) ++
        [(microsecond / 10 / 10 % 10).digitChar, (microsecond / 10 % 10).digitChar,
          (microsecond % 10).digitChar] := by
      simp only [Decimal.padded, List.cons_append, List.nil_append]
    refine ⟨Decimal.padded 6 microsecond, ?_, ?_⟩
    · rw [fractionText, if_neg whole, List.cons_append, isoFraction, reader_bind, skip_self]
      simp only [Option.bind_some, ↓reduceIte, reader_bind, digits, taken, dropped,
        reader_guard nonempty, reader_pure]
    · rw [front, List.append_assoc,
        List.take_append_of_le_length (by rw [Decimal.length_padded]),
        List.take_of_length_le (by rw [Decimal.length_padded]),
        Decimal.value_padded_of_lt (by omega)]
      omega

/-- An engine reads the hours and minutes of an offset, and stops before its seconds. -/
theorem isoZone_offsetText {difference : ℤ} (inDay : |difference| < Python.microsecondsPerDay) :
    ∃ minutes rest, isoZone (offsetText difference) = some (.offset minutes, rest) ∧
      (rest = [] ↔ 60000000 ∣ difference) ∧
        (60000000 ∣ difference → minutes * 60000 = difference / 1000) := by
  have size : difference.natAbs / 1000000 < 86400 := by
    have bounds := abs_lt.mp inDay
    unfold Python.microsecondsPerDay at bounds
    omega
  have divides : difference.natAbs % 60000000 = 0 ↔ (60000000 : ℤ) ∣ difference := by omega
  obtain ⟨rest, texts, ends⟩ : ∃ rest,
      offsetText difference = (if difference < 0 then '-' else '+') ::
        (Decimal.padded 2 (difference.natAbs / 1000000 / 3600) ++
          ':' :: (Decimal.padded 2 (difference.natAbs / 1000000 / 60 % 60) ++ rest)) ∧
      (rest = [] ↔ (60000000 : ℤ) ∣ difference) := by
    refine ⟨_, rfl, ?_⟩
    rw [← divides]
    split
    next whole => exact iff_of_true rfl whole
    next parts => exact iff_of_false (List.cons_ne_nil _ _) parts
  have hours : ∀ after, numberIn 0 23
      (Decimal.padded 2 (difference.natAbs / 1000000 / 3600) ++ after) =
        some (difference.natAbs / 1000000 / 3600, after) :=
    fun _ => numberIn_padded (Nat.zero_le _) (by omega) (by omega)
  have minutes : ∀ after, numberIn 0 59
      (Decimal.padded 2 (difference.natAbs / 1000000 / 60 % 60) ++ after) =
        some (difference.natAbs / 1000000 / 60 % 60, after) :=
    fun _ => numberIn_padded (Nat.zero_le _) (by omega) (by omega)
  rw [texts]
  by_cases negative : difference < 0
  · refine ⟨-((difference.natAbs / 1000000 / 3600 : ℕ) * 60 +
      (difference.natAbs / 1000000 / 60 % 60 : ℕ)), rest, ?_, ends, ?_⟩
    · rw [if_pos negative, isoZone, reader_bind, skip_ne (by decide : '-' ≠ 'Z')]
      simp only [Option.bind_some, Bool.false_eq_true, ↓reduceIte, reader_bind,
        skip_ne (by decide : '-' ≠ '+'), skip_self, hours, expect_self, minutes, reader_pure]
    · omega
  · refine ⟨(difference.natAbs / 1000000 / 3600 : ℕ) * 60 +
      (difference.natAbs / 1000000 / 60 % 60 : ℕ), rest, ?_, ends, ?_⟩
    · rw [if_neg negative, isoZone, reader_bind, skip_ne (by decide : '+' ≠ 'Z')]
      simp only [Option.bind_some, Bool.false_eq_true, ↓reduceIte, reader_bind, skip_self, hours,
        expect_self, minutes, reader_pure]
    · omega

end Readers

/-! ## A datetime's instant -/

/-- The wall-clock time of a datetime, in whole milliseconds. -/
def wallOf (moment : Datetime) : ℤ :=
  wallTime moment.date moment.seconds + (moment.microsecond / 1000 : ℕ)

variable {reader : DateReader}

/-- The date and the time of day are the datetime's own; its zone is what the offset's text is
read as. -/
theorem isoDateTime_isoformat (moment : Datetime) :
    isoDateTime moment.isoformat = (isoZone (moment.offset.elim [] offsetText)).bind fun read =>
      some ((wallOf moment, read.1), read.2) := by
  have ends : ∀ c ∈ (moment.offset.elim [] offsetText).head?, c.isDigit = false ∧ c ≠ '.' := by
    intro c head
    cases zone : moment.offset with
    | none =>
        rw [zone] at head
        cases head
    | some difference =>
        rw [zone] at head
        obtain rfl : (if difference < 0 then '-' else '+') = c := Option.some.inj head
        split
        · decide
        · decide
  obtain ⟨fraction, reads, value⟩ := isoFraction_fractionText moment.inSecond ends
  obtain ⟨low, high⟩ := moment.year
  have read := isoDateTime_text moment.valid (by omega) moment.inDay reads value
  rw [wallOf, wallTime, add_assoc]
  exact read

/-- The text of a datetime is read as its instant where its offset has no seconds. -/
theorem newDate_isoformat (reader : DateReader) (moment : Datetime) :
    newDate reader (String.ofList moment.isoformat) =
      moment.offset.elim (timeClip (wallOf moment - reader.localOffset (wallOf moment)))
        fun difference => if 60000000 ∣ difference then timeClip (wallOf moment - difference / 1000)
          else reader.legacy (String.ofList moment.isoformat) := by
  have read := isoDateTime_isoformat moment
  cases zone : moment.offset with
  | none =>
      have local' : isoZone [] = some (.server, []) := rfl
      rw [zone, Option.elim_none, local', Option.bind_some] at read
      simp only [newDate, String.toList_ofList, read, Zone.toUTC, Option.elim_none]
  | some difference =>
      obtain ⟨minutes, rest, zoned, ends, same⟩ := isoZone_offsetText (moment.inOffset _ zone)
      rw [zone, Option.elim_some, zoned, Option.bind_some] at read
      rw [Option.elim_some]
      by_cases whole : (60000000 : ℤ) ∣ difference
      · rw [ends.mpr whole] at read
        simp only [newDate, String.toList_ofList, read, Zone.toUTC, same whole, whole, ↓reduceIte]
      · obtain ⟨c, others, rfl⟩ := List.exists_cons_of_ne_nil (mt ends.mp whole)
        simp only [newDate, String.toList_ofList, read, whole, ↓reduceIte]

/-- A datetime with an offset is within the range of the timestamp column. -/
theorem wallOf_bounds (moment : Datetime) {difference : ℤ}
    (zone : moment.offset = some difference) :
    -200000000000000 ≤ wallOf moment - difference / 1000 ∧
      wallOf moment - difference / 1000 ≤ 8000000000000000 := by
  obtain ⟨lower, upper⟩ := moment.valid.dayOf_bounds
  obtain ⟨low, high⟩ := moment.year
  have inDay := moment.inDay
  have inSecond := moment.inSecond
  have inOffset := abs_lt.mp (moment.inOffset _ zone)
  unfold Calendar.yearStart at lower upper
  unfold Python.microsecondsPerDay at inOffset
  unfold wallOf wallTime msPerDay
  omega

/-- The instant that is stored for a timestamp of the OCR service: that of the datetime in the
text, to the millisecond, as the driver sends it, which is the instant itself wherever the server's
zone is whole minutes away from UTC; without an offset the server's local time; with seconds in its
offset what the engine's fallback makes of it. -/
theorem storedInstant_normalized (reader : DateReader) {value : Option (List Char)} {text : String}
    (normalized : OcrService.normalizeTimestamp value = some text.toList) :
    ∃ moment : Datetime, Python.fromisoformat text.toList = some moment ∧
      (moment.offset = none → storedInstant reader text =
        Timestamptz.ofDate reader
          (timeClip (wallOf moment - reader.localOffset (wallOf moment)))) ∧
      ∀ difference ∈ moment.offset,
        (60000000 ∣ difference → ∃ instant, storedInstant reader text = some instant ∧
          instant.instant.ms = sent reader (wallOf moment - difference / 1000) ∧
          (60000 ∣ reader.zoneOffset (wallOf moment - difference / 1000) →
            instant.instant.ms = wallOf moment - difference / 1000)) ∧
        (¬ 60000000 ∣ difference →
          storedInstant reader text = Timestamptz.ofDate reader (reader.legacy text)) := by
  obtain ⟨moment, parsed, written⟩ := OcrService.normalizeTimestamp_iso normalized
  have read := newDate_isoformat reader moment
  rw [written, String.ofList_toList] at read
  refine ⟨moment, parsed, ?_, ?_⟩
  · intro naive
    rw [storedInstant, read, naive, Option.elim_none]
  · intro difference zone
    rw [storedInstant, read, zone, Option.elim_some]
    refine ⟨?_, ?_⟩
    · intro whole
      obtain ⟨lower, upper⟩ := wallOf_bounds moment zone
      have shift := abs_lt.mp (abs_sent_sub_lt reader (wallOf moment - difference / 1000))
      have inRange : |wallOf moment - difference / 1000| ≤ 8640000000000000 :=
        abs_le.mpr ⟨by omega, by omega⟩
      have inRange' : |sent reader (wallOf moment - difference / 1000)| ≤ 8640000000000000 :=
        abs_le.mpr ⟨by omega, by omega⟩
      have later : -210866803200000 ≤ sent reader (wallOf moment - difference / 1000) := by omega
      rw [if_pos whole, timeClip, dif_pos inRange]
      exact ⟨⟨⟨_, inRange'⟩, later⟩, Timestamptz.ofDate_eq_some.mpr ⟨_, rfl, rfl⟩, rfl,
        sent_eq_self_iff.mpr⟩
    · intro parts
      rw [if_neg parts]

/-- Half past two in the afternoon, five and a half hours ahead of UTC. -/
theorem storedInstant_normalized_sample :
    ∃ moment : Datetime,
      Python.fromisoformat "2026-04-08T14:30:00.123999+05:30".toList = some moment ∧
      (moment.offset = none →
        storedInstant addisAbaba "2026-04-08T14:30:00.123999+05:30" = Timestamptz.ofDate addisAbaba
          (timeClip (wallOf moment - addisAbaba.localOffset (wallOf moment)))) ∧
      ∀ difference ∈ moment.offset,
        (60000000 ∣ difference → ∃ instant,
          storedInstant addisAbaba "2026-04-08T14:30:00.123999+05:30" = some instant ∧
            instant.instant.ms = sent addisAbaba (wallOf moment - difference / 1000) ∧
            (60000 ∣ addisAbaba.zoneOffset (wallOf moment - difference / 1000) →
              instant.instant.ms = wallOf moment - difference / 1000)) ∧
        (¬ 60000000 ∣ difference →
          storedInstant addisAbaba "2026-04-08T14:30:00.123999+05:30" =
            Timestamptz.ofDate addisAbaba
              (addisAbaba.legacy "2026-04-08T14:30:00.123999+05:30")) := by
  obtain ⟨moment, made⟩ := Option.isSome_iff_exists.mp
    (show (Datetime.of 2026 4 8 14 30 0 123999 (some 19800000000)).isSome = true from rfl)
  have normalized := OcrService.normalizeTimestamp_isoformat moment
  have text : moment.isoformat = "2026-04-08T14:30:00.123999+05:30".toList := by
    cases made
    decide
  rw [text] at normalized
  exact storedInstant_normalized addisAbaba normalized

end BirrTrack.Processing
