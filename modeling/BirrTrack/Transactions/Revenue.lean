import BirrTrack.Js.Hundredths
import BirrTrack.Transactions.Pages

/-! # Revenue as Numbers

The database adds amounts up exactly, and the code hands out each amount and each sum as a
Number. Up to ten trillion birr no hundredth is lost on the way: the amounts of all pages, and
those of an export, add up to the revenue of the summary (`getSummary_totals`).
-/

namespace BirrTrack.Transactions

open Js Database Pages

variable {reader : DateReader} {query : GetTransactionsQueryDto} {db : Db}
  {rows : List TransactionRow}

/-- The summary's Numbers are, to the hundredth, the sum of the listed amounts and how many they
are. -/
def TotalsOf (summary : TransactionSummaryDto) (amounts : List (Option Number)) : Prop :=
  ∃ (numbers : List Number) (revenue count : Number), amounts = numbers.map some ∧
    summary.totalRevenue = some revenue ∧ summary.transactionCount = some count ∧
    Decimal.hundredths revenue.val =
      (numbers.map fun amount => Decimal.hundredths amount.val).sum ∧
    count.val = numbers.length

/-- What the rows add up to, in hundredths. -/
def revenueCents (rows : List TransactionRow) : ℤ := (rows.map (·.amount.cents)).sum

theorem ofText_centsText {cents : ℤ} (small : |cents| < 10 ^ 15) :
    ∃ number, Number.ofText Number.ofRat (centsText cents).toList = some number ∧
      Decimal.hundredths number.val = cents := by
  rw [Number.ofText, literal_centsText, Option.bind_some]
  exact Number.exists_ofRat small

/-- Every stored amount is handed out to the hundredth. -/
theorem exists_listed (rows : List TransactionRow) :
    ∃ numbers : List Number, (rows.map fun row => (toResponse row.toEntity).amount) =
        numbers.map some ∧
      numbers.map (fun amount => Decimal.hundredths amount.val) = rows.map (·.amount.cents) := by
  induction rows with
  | nil => exact ⟨[], rfl, rfl⟩
  | cons row rows ih =>
      obtain ⟨numbers, listed, cents⟩ := ih
      obtain ⟨amount, found, same⟩ :=
        ofText_centsText (row.amount.bounded.trans (by norm_num : (10 : ℤ) ^ 14 < 10 ^ 15))
      refine ⟨amount :: numbers, ?_, ?_⟩
      · rw [List.map_cons, List.map_cons, listed]
        exact congrArg (· :: _) found
      · rw [List.map_cons, List.map_cons, same, cents]

theorem exists_count {count : ℕ} (small : count < 2 ^ 53) :
    ∃ number, Number.ofText Number.ofRat (Nat.repr count).toList = some number ∧
      number.val = count := by
  refine ⟨⟨count, Binary64.representable_natCast small⟩, ?_, rfl⟩
  have literal : Decimal.literal (Nat.toDigits 10 count ++ []) = some (count : ℚ) := by
    rw [Decimal.literal_of_isDigit
        (fun c member => Decimal.isDigit_of_mem_toDigits c (List.mem_of_mem_head? member))
        Nat.toDigits_ne_nil,
      Decimal.unsignedLiteral_whole Nat.toDigits_ne_nil Decimal.isDigit_of_mem_toDigits
        (by simp), Decimal.value_toDigits]
    simp [Decimal.exponent]
  rw [List.append_nil] at literal
  rw [Nat.repr, String.toList_ofList, Number.ofText, literal, Option.bind_some]
  exact Number.ofRat_eq_some (Binary64.representable_natCast small)

theorem exists_revenue (small : |revenueCents rows| < 10 ^ 15) :
    ∃ number, (summarize rows).totalRevenue = some number ∧
      Decimal.hundredths number.val = revenueCents rows := by
  by_cases empty : rows = []
  · subst empty
    refine ⟨⟨0, Binary64.representable_zero⟩, ?_, ?_⟩
    · decide +kernel
    · decide +kernel
  · simp only [summarize, empty, ↓reduceIte]
    exact ofText_centsText small

/-- However the rows are ordered, the summary is of their amounts. -/
theorem totalsOf_perm (small : |revenueCents rows| < 10 ^ 15) (few : rows.length < 2 ^ 53)
    {listed : List TransactionRow} (same : listed.Perm rows) :
    TotalsOf (summarize rows) (listed.map fun row => (toResponse row.toEntity).amount) := by
  obtain ⟨numbers, amounts, cents⟩ := exists_listed listed
  obtain ⟨revenue, found, exact⟩ := exists_revenue small
  obtain ⟨count, counted, whole⟩ := exists_count few
  refine ⟨numbers, revenue, count, amounts, found, counted, ?_, ?_⟩
  · rw [exact, cents]
    exact (same.map _).sum_eq.symm
  · have lengths := congrArg List.length amounts
    rw [List.length_map, List.length_map] at lengths
    rw [whole, ← lengths, same.length_eq]

/-- The amounts of all pages, and those of an export, add up to the summary to the hundredth,
where no two rows of the same time lie on different pages. -/
theorem getSummary_totals (reader : DateReader) (query : GetTransactionsQueryDto) (db : Db)
    {rows : List TransactionRow}
    (answers : (buildFilteredQuery reader query).run db = (.ok rows, db))
    (positive : 0 < query.limit) (together : PagesKeepTies reader query db)
    (small : |revenueCents rows| < 10 ^ 15) (few : rows.length < 2 ^ 53)
    (orders : ℕ → NewestFirst) (exportOrder : NewestFirst) :
    ∃ summary sheet, (getSummary reader query).run db = (.ok summary, db) ∧
      (exportRows reader exportOrder query).run db = (.ok sheet, db) ∧
      TotalsOf summary (sheet.map ExportRow.amount) ∧
      TotalsOf summary ((allItems reader orders query
        (lastPage rows.length query.getEffectiveLimit) db).map TransactionResponse.amount) := by
  refine ⟨_, _, Procedure.run_bind_ok answers, Procedure.run_bind_ok answers, ?_, ?_⟩
  · rw [List.map_map]
    exact totalsOf_perm small few (exportOrder.perm rows)
  · have reachable : PagesReachable reader query db := by
      refine pagesReachable_of_length positive fun rows' answers' => ?_
      cases answers.symm.trans answers'
      exact few.le
    rw [allItems_of_reachable answers reachable orders fun _ => mul_lt_of_lt_lastPage,
      List.map_map]
    refine totalsOf_perm small few (pages_perm (together rows answers) ?_ ?_)
    · exact length_le_lastPage_mul (getEffectiveLimit_pos positive)
    · exact fun number => (orders (number + 1)).ordering rows

/-- The one row of the sample store is on its page. -/
theorem sampleDb_keepsTies : PagesKeepTies utcReader onePerPage sampleDb := by
  intro rows answers number splits
  cases (buildFilteredQuery_onePerPage sampleDb).symm.trans answers
  obtain ⟨row, -, before, after⟩ := splits
  have one : notOlder creationTime sampleDb.transactions row ≤ 1 := List.countP_le_length
  omega

theorem sampleDb_totals : ∃ (order : NewestFirst) (summary : TransactionSummaryDto)
    (sheet : List ExportRow), (getSummary utcReader onePerPage).run sampleDb =
        (.ok summary, sampleDb) ∧
      (exportRows utcReader order onePerPage).run sampleDb = (.ok sheet, sampleDb) ∧
      TotalsOf summary (sheet.map ExportRow.amount) ∧
      TotalsOf summary ((allItems utcReader (fun _ => order) onePerPage
        (lastPage sampleDb.transactions.length onePerPage.getEffectiveLimit)
          sampleDb).map TransactionResponse.amount) := by
  obtain ⟨ordered, ordering⟩ := exists_ordering creationTime sampleDb.transactions
  obtain ⟨order, -⟩ := exists_newestFirst ordering
  exact ⟨order, getSummary_totals utcReader onePerPage sampleDb
    (buildFilteredQuery_onePerPage sampleDb) Nat.one_pos sampleDb_keepsTies (by decide)
    (by decide) (fun _ => order) order⟩

end BirrTrack.Transactions
