import BirrTrack.Transactions.Queries
import BirrTrack.Transactions.Update
import Mathlib.Data.Int.ConditionallyCompleteOrder

/-! # Daily summaries

A summary for one UTC day names the day as its first and as its last date. A date
without a time is its midnight, so the two bounds of such a summary are the same
instant, the one that the driver sends for that midnight.
-/

namespace BirrTrack.Transactions

open Js Database

variable {reader : DateReader} {db : Db}

/-- A day as a date without a time. -/
def dayText (day : ℤ) : String := String.ofList (Calendar.dateText (Calendar.dateOf day))

/-- The query for the days from the first to the last. -/
def daysQuery (first last : ℤ) : GetTransactionsQueryDto :=
  ⟨1, 20, some (dayText first), some (dayText last), none⟩

/-- The UTC day of a transaction. -/
def TransactionRow.day (row : TransactionRow) : ℤ := row.timestamp.instant.ms / msPerDay

/-- The rows that `getSummary` counts, none if the query is rejected. -/
def countedRows (reader : DateReader) (query : GetTransactionsQueryDto) (db : Db) :
    List TransactionRow :=
  match ((buildFilteredQuery reader query).run db).1 with
  | .ok rows => rows
  | .error _ => []

/-- A summary in exact decimals, its revenue in hundredths. -/
structure ExactSummary where
  totalRevenue : ℤ
  transactionCount : ℕ
  deriving DecidableEq

def exactSummary (rows : List TransactionRow) : ExactSummary :=
  ⟨(rows.map (·.amount.cents)).sum, rows.length⟩

/-- The days `first` to `first + more`. -/
def daysFrom (first : ℤ) (more : ℕ) : List ℤ := 
  (List.range (more + 1)).map fun index : ℕ => first + index

/-- Every transaction of the days is in the summary of its day, and these summaries add up to
the summary of all the days. -/
structure DaysAddUp (reader : DateReader) (db : Db) (first : ℤ) (more : ℕ) : Prop where
  answered : ∀ day ∈ daysFrom first more, (getSummary reader (daysQuery day day)).run db =
    (.ok (summarize (countedRows reader (daysQuery day day) db)), db)
  answeredAll : (getSummary reader (daysQuery first (first + more))).run db =
    (.ok (summarize (countedRows reader (daysQuery first (first + more)) db)), db)
  counted : ∀ row ∈ db.transactions, row.day ∈ daysFrom first more →
    row ∈ countedRows reader (daysQuery row.day row.day) db
  revenue : ((daysFrom first more).map fun day =>
      (exactSummary (countedRows reader (daysQuery day day) db)).totalRevenue).sum =
    (exactSummary (countedRows reader (daysQuery first (first + more)) db)).totalRevenue
  count : ((daysFrom first more).map fun day =>
      (exactSummary (countedRows reader (daysQuery day day) db)).transactionCount).sum =
    (exactSummary (countedRows reader (daysQuery first (first + more)) db)).transactionCount

/-- The instant that the driver sends for the midnight of a day. -/
def sentMidnight (reader : DateReader) (day : ℤ) : ℤ := sent reader (day * msPerDay)

/-- Every transaction of the days took place at the midnight of its day, as the driver sends it,
and every other one between the first and the last of these instants at one of them too. -/
structure AllAtMidnight (reader : DateReader) (db : Db) (first : ℤ) (more : ℕ) : Prop where
  ofDay : ∀ row ∈ db.transactions, row.day ∈ daysFrom first more →
    row.timestamp.instant.ms = sentMidnight reader row.day
  between : ∀ row ∈ db.transactions, sentMidnight reader first ≤ row.timestamp.instant.ms →
    row.timestamp.instant.ms ≤ sentMidnight reader (first + more) →
      ∃ day ∈ daysFrom first more, row.timestamp.instant.ms = sentMidnight reader day

/-- Days of the years 0 to 9999, which dates write with four digits. -/
def FourDigitYears (first : ℤ) (more : ℕ) : Prop :=
  Calendar.yearStart 0 ≤ first ∧ first + more < Calendar.yearStart 10000

/-! ## The bounds of a query -/

theorem mem_daysFrom {first day : ℤ} {more : ℕ} :
    day ∈ daysFrom first more ↔ first ≤ day ∧ day ≤ first + more := by
  simp only [daysFrom, List.mem_map, List.mem_range]
  refine ⟨?_, ?_⟩
  · intro member
    obtain ⟨index, bounded, rfl⟩ := member
    omega
  · intro bounds
    exact ⟨(day - first).toNat, by omega, by omega⟩

theorem dayText_ne_empty (day : ℤ) : dayText day ≠ "" := by
  intro empty
  have letters := congrArg String.toList empty
  rw [dayText, String.toList_ofList, Calendar.dateText] at letters
  exact List.append_ne_nil_of_right_ne_nil _ (List.cons_ne_nil _ _) letters

theorem abs_sentMidnight_sub_lt (reader : DateReader) (day : ℤ) :
    |sentMidnight reader day - day * msPerDay| < 60000 := abs_sent_sub_lt reader _

theorem sentMidnight_strictMono (reader : DateReader) : StrictMono (sentMidnight reader) := by
  intro first last earlier
  have shifted := abs_lt.mp (abs_sentMidnight_sub_lt reader first)
  have shifted' := abs_lt.mp (abs_sentMidnight_sub_lt reader last)
  unfold msPerDay at *
  omega

/-- A date of these years is read as its midnight. -/
theorem ofDate_dayText {day : ℤ} (low : Calendar.yearStart 0 ≤ day)
    (high : day < Calendar.yearStart 10000) :
    ∃ midnight : Timestamptz,
      Timestamptz.ofDate reader (newDate reader (dayText day)) = some midnight ∧
        midnight.instant.ms = sentMidnight reader day := by
  have year : (Calendar.dateOf day).year.natAbs < 10 ^ 6 := by
    obtain ⟨lower, upper⟩ := Calendar.yearOf_bounds day
    change (Calendar.yearOf day).natAbs < 10 ^ 6
    unfold Calendar.yearStart at *
    omega
  have inRange : |day * msPerDay| ≤ 8640000000000000 := by
    rw [abs_le]
    unfold Calendar.yearStart msPerDay at *
    omega
  have sentInRange : |sentMidnight reader day| ≤ 8640000000000000 ∧
      -210866803200000 ≤ sentMidnight reader day := by
    have shifted := abs_lt.mp (abs_sentMidnight_sub_lt reader day)
    rw [abs_le]
    unfold Calendar.yearStart msPerDay at *
    omega
  refine ⟨⟨⟨_, sentInRange.1⟩, sentInRange.2⟩, Timestamptz.ofDate_eq_some.mpr ?_, rfl⟩
  refine ⟨⟨day * msPerDay, inRange⟩, ?_, rfl⟩
  rw [dayText, newDate_dateText reader (Calendar.dateOf_valid day) year, Calendar.dayOf_dateOf,
    timeClip, dif_pos inRange]

/-- The query for some days picks the rows from the first midnight to the last. -/
theorem run_daysQuery {first last : ℤ} (low : Calendar.yearStart 0 ≤ first) (ordered : first ≤ last)
    (high : last < Calendar.yearStart 10000) :
    (buildFilteredQuery reader (daysQuery first last)).run db =
      (.ok (db.transactions.filter fun row =>
        sentMidnight reader first ≤ row.timestamp.instant.ms ∧
          row.timestamp.instant.ms ≤ sentMidnight reader last), db) := by
  obtain ⟨start, firstRead, startMs⟩ := @ofDate_dayText reader first low (ordered.trans_lt high)
  obtain ⟨stop, lastRead, stopMs⟩ := @ofDate_dayText reader last (low.trans ordered) high
  have parameter : ∀ day, (some (dayText day)).filter (fun text => decide (text ≠ "")) =
      some (dayText day) := by
    intro day
    rw [Option.filter_some, if_pos (decide_eq_true (dayText_ne_empty day))]
  rw [buildFilteredQuery, Procedure.run_query]
  simp only [daysQuery, parameter, Option.filter_none, Option.mapM_some, Option.mapM_none,
    firstRead, lastRead, Option.bind_eq_bind, Option.bind_some, Option.pure_def, Option.map_eq_map,
    Option.map_some, Option.mem_def, Option.some_inj, forall_eq', reduceCtorEq, false_implies,
    implies_true, and_true, startMs, stopMs]

/-- Where local time is whole minutes away from UTC at the midnights, the condition is that every
transaction of the days took place at midnight UTC. -/
theorem allAtMidnight_iff {first : ℤ} {more : ℕ}
    (whole : ∀ day ∈ daysFrom first more, 60000 ∣ reader.zoneOffset (day * msPerDay)) :
    AllAtMidnight reader db first more ↔ ∀ row ∈ db.transactions,
      row.day ∈ daysFrom first more → row.timestamp.instant.msOfDay = 0 := by
  have unshifted : ∀ day ∈ daysFrom first more, sentMidnight reader day = day * msPerDay :=
    fun day member => sent_eq_self_iff.mpr (whole day member)
  have midnight : ∀ row : TransactionRow, row.day ∈ daysFrom first more →
      (row.timestamp.instant.ms = sentMidnight reader row.day ↔
        row.timestamp.instant.msOfDay = 0) := by
    intro row within
    rw [unshifted _ within]
    have split := day_msOfDay row.timestamp.instant
    unfold TransactionRow.day
    omega
  refine ⟨fun all row member within => (midnight row within).mp (all.ofDay row member within), ?_⟩
  intro all
  refine ⟨fun row member within => (midnight row within).mpr (all row member within), ?_⟩
  intro row member low high
  have within : row.day ∈ daysFrom first more := by
    rw [unshifted first (mem_daysFrom.mpr ⟨le_rfl, by omega⟩)] at low
    rw [unshifted _ (mem_daysFrom.mpr ⟨by omega, le_rfl⟩)] at high
    rw [mem_daysFrom]
    unfold TransactionRow.day msPerDay at *
    omega
  exact ⟨row.day, within, (midnight row within).mpr (all row member within)⟩

/-! ## Days that add up -/

section Days

variable {first : ℤ} {more : ℕ}

theorem countedRows_of_run {query : GetTransactionsQueryDto} {rows : List TransactionRow}
    (answers : (buildFilteredQuery reader query).run db = (.ok rows, db)) :
    countedRows reader query db = rows ∧
      (getSummary reader query).run db =
        (.ok (summarize (countedRows reader query db)), db) := by
  have counted : countedRows reader query db = rows := by rw [countedRows, answers]
  exact ⟨counted, by rw [counted]; exact Procedure.run_bind_ok answers⟩

/-- The rows that a day's summary counts. -/
theorem countedRows_day {day : ℤ} (low : Calendar.yearStart 0 ≤ day)
    (high : day < Calendar.yearStart 10000) :
    countedRows reader (daysQuery day day) db = db.transactions.filter fun row =>
      row.timestamp.instant.ms = sentMidnight reader day := by
  rw [(countedRows_of_run (run_daysQuery low le_rfl high)).1]
  refine List.filter_congr fun row _ => ?_
  rw [decide_eq_decide]
  omega

/-- Rows picked by disjoint conditions, one condition after the other. -/
theorem filter_append_filter_perm {α : Type} {p q : α → Prop} [DecidablePred p] [DecidablePred q]
    (rows : List α) (apart : ∀ row, p row → ¬ q row) :
    (rows.filter (p ·) ++ rows.filter (q ·)).Perm (rows.filter fun row => p row ∨ q row) := by
  have parts := List.filter_append_perm (p ·) (rows.filter fun row => p row ∨ q row)
  rw [List.filter_filter, List.filter_filter] at parts
  refine (List.Perm.of_eq ?_).trans parts
  congr 1
  · refine List.filter_congr fun row _ => ?_
    rw [← Bool.decide_and, decide_eq_decide]
    exact Iff.intro (fun first => ⟨first, Or.inl first⟩) And.left
  · refine List.filter_congr fun row _ => ?_
    rw [← decide_not, ← Bool.decide_and, decide_eq_decide]
    refine Iff.intro (fun second => ⟨fun first => apart row first second, Or.inr second⟩) ?_
    exact fun both => both.2.resolve_left both.1

/-- The rows of single days are those at the midnights of these days. -/
theorem flatMap_filter_perm (reader : DateReader) (rows : List TransactionRow) {days : List ℤ}
    (distinct : days.Nodup) :
    (days.flatMap fun day => rows.filter fun row =>
        row.timestamp.instant.ms = sentMidnight reader day).Perm
      (rows.filter fun row => ∃ day ∈ days,
        row.timestamp.instant.ms = sentMidnight reader day) := by
  induction days with
  | nil => simp
  | cons day later ih =>
      obtain ⟨other, distinct⟩ := List.nodup_cons.mp distinct
      rw [List.flatMap_cons]
      refine ((ih distinct).append_left _).trans ?_
      refine (filter_append_filter_perm rows ?_).trans (List.Perm.of_eq ?_)
      · rintro row here ⟨day', member, there⟩
        rw [(sentMidnight_strictMono reader).injective (here.symm.trans there)] at other
        exact other member
      · refine List.filter_congr fun row _ => ?_
        rw [decide_eq_decide, List.exists_mem_cons_iff]

theorem nodup_daysFrom (first : ℤ) (more : ℕ) : (daysFrom first more).Nodup := by
  refine List.nodup_range.map fun index other same => ?_
  exact Int.ofNat.inj (add_left_cancel same)

/-- The rows of the single days are the rows of all the days, as far as these are at one of the
midnights. -/
theorem flatMap_counted_perm (reader : DateReader) (db : Db) (years : FourDigitYears first more) :
    ((daysFrom first more).flatMap fun day => countedRows reader (daysQuery day day) db).Perm
      ((countedRows reader (daysQuery first (first + more)) db).filter fun row =>
        ∃ day ∈ daysFrom first more, row.timestamp.instant.ms = sentMidnight reader day) := by
  obtain ⟨low, high⟩ := years
  have single : ∀ day ∈ daysFrom first more, countedRows reader (daysQuery day day) db =
      db.transactions.filter fun row => row.timestamp.instant.ms = sentMidnight reader day := by
    intro day member
    rw [mem_daysFrom] at member
    exact countedRows_day (by omega) (by omega)
  rw [List.flatMap_congr single, (countedRows_of_run (run_daysQuery low (by omega) high)).1,
    List.filter_filter]
  refine (flatMap_filter_perm reader _ (nodup_daysFrom first more)).trans (List.Perm.of_eq ?_)
  refine List.filter_congr fun row _ => ?_
  rw [← Bool.decide_and, decide_eq_decide]
  refine Iff.intro (fun same => ⟨same, ?_⟩) And.left
  obtain ⟨day, member, same⟩ := same
  obtain ⟨lower, upper⟩ := mem_daysFrom.mp member
  rw [same]
  exact ⟨(sentMidnight_strictMono reader).monotone lower,
    (sentMidnight_strictMono reader).monotone upper⟩

/-- The summaries of single days hold all their transactions and add up exactly when every
transaction of these days took place at the midnight of its day, as the driver sends it. -/
theorem daysAddUp_iff (reader : DateReader) (db : Db) (years : FourDigitYears first more) :
    DaysAddUp reader db first more ↔ AllAtMidnight reader db first more := by
  have inYears : ∀ day ∈ daysFrom first more, Calendar.yearStart 0 ≤ day ∧
      day < Calendar.yearStart 10000 := by
    intro day member
    obtain ⟨low, high⟩ := years
    rw [mem_daysFrom] at member
    omega
  have ofDay : ∀ row ∈ db.transactions, row.day ∈ daysFrom first more →
      (row ∈ countedRows reader (daysQuery row.day row.day) db ↔
        row.timestamp.instant.ms = sentMidnight reader row.day) := by
    intro row member within
    obtain ⟨low, high⟩ := inYears _ within
    rw [countedRows_day low high, List.mem_filter, decide_eq_true_eq, and_iff_right member]
  have parts := flatMap_counted_perm reader db years
  have all := countedRows_of_run (@run_daysQuery reader db first (first + more) years.1 (by omega)
    years.2)
  refine ⟨?_, ?_⟩
  · intro adds
    refine ⟨fun row member within => (ofDay row member within).mp (adds.counted row member within),
      ?_⟩
    have count := adds.count
    simp only [exactSummary] at count
    rw [← List.length_flatMap, parts.length_eq, List.length_filter_eq_length_iff] at count
    intro row member low high
    refine of_decide_eq_true (count row ?_)
    rw [all.1, List.mem_filter, decide_eq_true_eq]
    exact ⟨member, low, high⟩
  · intro midnights
    have whole : ((daysFrom first more).flatMap fun day =>
        countedRows reader (daysQuery day day) db).Perm
          (countedRows reader (daysQuery first (first + more)) db) := by
      refine parts.trans (List.Perm.of_eq (List.filter_eq_self.mpr ?_))
      intro row counted
      rw [all.1, List.mem_filter, decide_eq_true_eq] at counted
      exact decide_eq_true (midnights.between row counted.1 counted.2.1 counted.2.2)
    refine ⟨?_, all.2, ?_, ?_, ?_⟩
    · intro day member
      obtain ⟨low, high⟩ := inYears day member
      exact (countedRows_of_run (run_daysQuery low le_rfl high)).2
    · exact fun row member within =>
        (ofDay row member within).mpr (midnights.ofDay row member within)
    · simp only [exactSummary]
      rw [← (whole.map _).sum_eq, List.map_flatMap, List.flatMap_def, List.sum_flatten,
        List.map_map]
      rfl
    · simp only [exactSummary]
      rw [← whole.length_eq, List.length_flatMap]

end Days

/-- A store with one transaction, of the first midnight of 1970. -/
def midnightDb : Db :=
  .single { sampleRow with timestamp := epoch } [] fun _ member => absurd member List.not_mem_nil

/-- The first week of 1970 adds up in that store. -/
theorem midnightDb_daysAddUp : DaysAddUp utcReader midnightDb 0 6 := by
  refine (daysAddUp_iff utcReader midnightDb ⟨by decide, by decide⟩).mpr ?_
  refine (allAtMidnight_iff fun day _ => dvd_zero 60000).mpr ?_
  intro row member _
  rw [List.mem_singleton.mp member]
  rfl

/-- A transaction at ten in the morning is not in the summary of its day. -/
theorem not_daysAddUp_sampleDb : ¬ DaysAddUp utcReader sampleDb sampleRow.day 0 := by
  intro adds
  have member : sampleRow ∈ sampleDb.transactions := List.mem_singleton_self _
  have counted := adds.counted sampleRow member (mem_daysFrom.mpr ⟨le_rfl, le_rfl⟩)
  rw [countedRows_day (by decide) (by decide), List.mem_filter, decide_eq_true_eq] at counted
  revert counted
  decide

end BirrTrack.Transactions
