import BirrTrack.Foundation.Pages
import BirrTrack.Transactions.Queries
import BirrTrack.Transactions.Update

/-! # Pages of transactions

A client reads a filtered result page by page. Every page is a query of its own, and
each may see rows that were created at the same time in another order. Where a page starts
is computed in Numbers.
-/

namespace BirrTrack.Transactions

open Js Database Pages

variable {reader : DateReader} {query : GetTransactionsQueryDto} {db : Db}
  {rows : List TransactionRow}

/-- When a row was created. -/
def creationTime (row : TransactionRow) : ℤ := row.createdAt.instant.ms

/-- `Math.ceil(total / limit)` -/
def lastPage (total limit : ℕ) : ℕ := (total + limit - 1) / limit

/-- The items of `findAll` for one page, none if the query is rejected. -/
def pageItems (reader : DateReader) (order : NewestFirst) (query : GetTransactionsQueryDto)
    (db : Db) : List TransactionResponse :=
  match ((findAll reader order query).run db).1 with
  | .ok answer => answer.items
  | .error _ => []

/-- The query for another page. -/
def GetTransactionsQueryDto.onPage (query : GetTransactionsQueryDto) (number : ℕ) :
    GetTransactionsQueryDto :=
  { query with page := number }

/-- The items of the pages 1 to `last`, one after the other. -/
def allItems (reader : DateReader) (orders : ℕ → NewestFirst) (query : GetTransactionsQueryDto)
    (last : ℕ) (db : Db) : List TransactionResponse :=
  (List.range last).flatMap fun previous =>
    pageItems reader (orders (previous + 1)) (query.onPage (previous + 1)) db

/-- The pages together hold the matching rows, each once; so does an export, and the summary
counts as many. -/
structure PartitionedInto (reader : DateReader) (query : GetTransactionsQueryDto) (db : Db)
    (rows : List TransactionRow) (orders : ℕ → NewestFirst) (exportOrder : NewestFirst) :
    Prop where
  items : (allItems reader orders query (lastPage rows.length query.getEffectiveLimit) db).Perm
    (rows.map fun row => toResponse row.toEntity)
  exported : ∃ sheet, (exportRows reader exportOrder query).run db = (.ok sheet, db) ∧
    sheet.Perm ((allItems reader orders query (lastPage rows.length query.getEffectiveLimit)
      db).map fun response => exportRow response.item)
  counted : ∃ summary, (getSummary reader query).run db = (.ok summary, db) ∧
    summary.transactionCount = Number.ofText Number.ofRat (Nat.repr (allItems reader orders query
      (lastPage rows.length query.getEffectiveLimit) db).length).toList

/-- Whatever order each query sees, the pages partition the rows that match the filter. -/
def PagesPartition (reader : DateReader) (query : GetTransactionsQueryDto) (db : Db) : Prop :=
  ∀ rows, (buildFilteredQuery reader query).run db = (.ok rows, db) →
    ∀ orders exportOrder, PartitionedInto reader query db rows orders exportOrder

/-- No two matching rows that were created at the same time lie on different pages. -/
def PagesKeepTies (reader : DateReader) (query : GetTransactionsQueryDto) (db : Db) : Prop :=
  ∀ rows, (buildFilteredQuery reader query).run db = (.ok rows, db) →
    ∀ number, ¬ Splits creationTime rows (number * query.getEffectiveLimit)

/-- The pages of the matching rows start where they should. -/
def PagesReachable (reader : DateReader) (query : GetTransactionsQueryDto) (db : Db) : Prop :=
  ∀ rows, (buildFilteredQuery reader query).run db = (.ok rows, db) →
    ∀ number, number * query.getEffectiveLimit < rows.length →
      (query.onPage (number + 1)).skip = some (number * query.getEffectiveLimit)

/-! ## One page -/

theorem buildFilteredQuery_sublist
    (answers : (buildFilteredQuery reader query).run db = (.ok rows, db)) :
    rows.Sublist db.transactions := by
  rcases buildFilteredQuery_spec reader query with rejected | ⟨picks, picked⟩
  · rw [rejected] at answers
    cases answers
  · rw [picked] at answers
    cases answers
    exact List.filter_sublist

/-- What is on one page: nothing if its offset is rejected. -/
theorem pageItems_of_rows (answers : (buildFilteredQuery reader query).run db = (.ok rows, db))
    (order : NewestFirst) (number : ℕ) :
    pageItems reader order (query.onPage number) db =
      ((query.onPage number).skip.elim [] fun start =>
        ((order.sort rows).drop start).take query.getEffectiveLimit).map
          fun row => toResponse row.toEntity := by
  have answers' : (buildFilteredQuery reader (query.onPage number)).run db = (.ok rows, db) :=
    answers
  rw [pageItems, findAll, Procedure.run_bind_ok answers']
  cases (query.onPage number).skip <;> rfl

/-- Pages that start where they should. -/
theorem allItems_of_reachable
    (answers : (buildFilteredQuery reader query).run db = (.ok rows, db))
    (reachable : PagesReachable reader query db) (orders : ℕ → NewestFirst) {last : ℕ}
    (within : ∀ number < last, number * query.getEffectiveLimit < rows.length) :
    allItems reader orders query last db =
      (pages query.getEffectiveLimit last fun number => (orders (number + 1)).sort rows).map
        fun row => toResponse row.toEntity := by
  rw [allItems, pages, List.map_flatMap]
  refine List.flatMap_congr fun number member => ?_
  have start := reachable rows answers number (within number (List.mem_range.mp member))
  rw [pageItems_of_rows answers, start, Option.elim_some, page]

/-- Pages in one and the same order, wherever they start. -/
theorem allItems_of_order
    (answers : (buildFilteredQuery reader query).run db = (.ok rows, db)) (order : NewestFirst)
    (last : ℕ) :
    allItems reader (fun _ => order) query last db =
      pagesAt query.getEffectiveLimit last (fun number => (query.onPage (number + 1)).skip)
        ((order.sort rows).map fun row => toResponse row.toEntity) := by
  rw [allItems, pagesAt]
  refine List.flatMap_congr fun number _ => ?_
  rw [pageItems_of_rows answers]
  cases (query.onPage (number + 1)).skip with
  | none => rfl
  | some start => simp only [Option.elim_some, List.map_take, List.map_drop]

/-! ## Offsets -/

theorem getEffectiveLimit_pos (positive : 0 < query.limit) : 0 < query.getEffectiveLimit :=
  Nat.lt_min.mpr ⟨positive, by decide⟩

/-- The pages of a result are in the range of exact integers, as long as its rows are. -/
theorem skip_of_small {number : ℕ} (positive : 0 < query.getEffectiveLimit)
    (small : number * query.getEffectiveLimit < 2 ^ 53) :
    (query.onPage (number + 1)).skip = some (number * query.getEffectiveLimit) := by
  have few : number < 2 ^ 53 := (Nat.le_mul_of_pos_right number positive).trans_lt small
  have previous : Number.ofRat (((number + 1 : ℕ) : ℚ) - 1) =
      some ⟨number, Binary64.representable_natCast few⟩ := by
    rw [Nat.cast_add, Nat.cast_one, add_sub_cancel_right]
    exact Number.ofRat_eq_some (Binary64.representable_natCast few)
  have product : Number.ofRat ((number : ℚ) * query.getEffectiveLimit) =
      some ⟨(number * query.getEffectiveLimit : ℕ), Binary64.representable_natCast small⟩ := by
    rw [← Nat.cast_mul]
    exact Number.ofRat_eq_some (Binary64.representable_natCast small)
  have inRange : (0 : ℚ) ≤ (number * query.getEffectiveLimit : ℕ) ∧
      ((number * query.getEffectiveLimit : ℕ) : ℚ) < 2 ^ 63 := by
    refine ⟨Nat.cast_nonneg _, ?_⟩
    exact_mod_cast small.trans (by norm_num : 2 ^ 53 < 2 ^ 63)
  have text := @Number.literal_toString_natCast _
    ⟨(number * query.getEffectiveLimit : ℕ), Binary64.representable_natCast small⟩ rfl small
  have page : (query.onPage (number + 1)).page = number + 1 := rfl
  have limit : (query.onPage (number + 1)).getEffectiveLimit = query.getEffectiveLimit := rfl
  simp only [GetTransactionsQueryDto.skip, page, limit, previous, product, text,
    Option.bind_eq_bind, Option.bind_some, if_pos inRange, Int.floor_natCast, Int.toNat_natCast]

theorem pagesReachable_of_length (positive : 0 < query.limit)
    (few : ∀ rows, (buildFilteredQuery reader query).run db = (.ok rows, db) →
      rows.length ≤ 2 ^ 53) : PagesReachable reader query db :=
  fun rows answers _ inside =>
    skip_of_small (getEffectiveLimit_pos positive) (inside.trans_le (few rows answers))

/-- A later page starts no earlier, and an earlier one starts somewhere if a later one does. -/
theorem skip_mono {number later last : ℕ} (order : number ≤ later)
    (found : (query.onPage (later + 1)).skip = some last) :
    ∃ first ≤ last, (query.onPage (number + 1)).skip = some first := by
  have previous : ∀ page : ℕ, (0 : ℚ) ≤ ((page + 1 : ℕ) : ℚ) - 1 := by
    intro page
    rw [Nat.cast_add, Nat.cast_one, add_sub_cancel_right]
    exact Nat.cast_nonneg page
  have nonneg : ∀ {q : ℚ} {n : Number}, 0 ≤ q → Number.ofRat q = some n → 0 ≤ n.val :=
    fun low rounded => Binary64.round_nonneg low (Number.round_of_ofRat rounded)
  simp only [GetTransactionsQueryDto.skip, Option.bind_eq_bind, Option.bind_eq_some_iff] at found
  obtain ⟨before, ofPage, product, multiplied, offset, text, inRange⟩ := found
  split at inRange
  next range =>
    obtain ⟨low, high⟩ := range
    obtain ⟨before', ofPage', lePage⟩ := Number.ofRat_mono (previous number)
      (sub_le_sub_right (Nat.cast_le.mpr (Nat.succ_le_succ order)) 1) ofPage
    have someBefore := nonneg (previous number) ofPage'
    obtain ⟨product', multiplied', leProduct⟩ := Number.ofRat_mono
      (mul_nonneg someBefore (Nat.cast_nonneg _))
      (mul_le_mul_of_nonneg_right lePage (Nat.cast_nonneg _)) multiplied
    have someProduct := nonneg (mul_nonneg someBefore (Nat.cast_nonneg _)) multiplied'
    obtain ⟨offset', text', low', rounds'⟩ := Number.literal_toString_of_nonneg someProduct
    have leOffset : offset' ≤ offset := by
      obtain ⟨q, same, rounds⟩ := Number.literal_toString product
      cases text.symm.trans same
      by_contra less
      obtain ⟨v, below, rounded⟩ := Binary64.round_mono low (not_le.mp less).le rounds'
      cases rounded.symm.trans rounds
      rw [Number.ext (le_antisymm leProduct below), text] at text'
      cases text'
      exact less le_rfl
    cases inRange
    refine ⟨⌊offset'⌋.toNat, Int.toNat_le_toNat (Int.floor_mono leOffset), ?_⟩
    simp only [GetTransactionsQueryDto.skip, Option.bind_eq_bind]
    rw [Option.bind_eq_some_iff]
    refine ⟨before', ofPage', ?_⟩
    rw [Option.bind_eq_some_iff]
    refine ⟨product', multiplied', ?_⟩
    rw [text', Option.bind_some, if_pos ⟨low', leOffset.trans_lt high⟩]
  next => cases inRange

/-! ## Orders -/

theorem NewestFirst.ordering (order : NewestFirst) (rows : List TransactionRow) :
    Ordering creationTime rows (order.sort rows) := ⟨order.perm rows, order.sorted rows⟩

/-- The database may answer in any order that is newest first. -/
theorem exists_newestFirst {ordered : List TransactionRow}
    (ordering : Ordering creationTime rows ordered) :
    ∃ order : NewestFirst, order.sort rows = ordered := by
  choose other others using exists_ordering creationTime
  have chosen : ∀ list, Ordering creationTime list
      (if list = rows then ordered else other list) := by
    intro list
    by_cases same : list = rows
    · simpa only [same, ↓reduceIte] using ordering
    · simpa only [same, ↓reduceIte] using others list
  exact ⟨⟨_, fun list => (chosen list).perm, fun list => (chosen list).sorted⟩, if_pos rfl⟩

theorem length_le_lastPage_mul {total limit : ℕ} (positive : 0 < limit) :
    total ≤ lastPage total limit * limit := by
  have split := Nat.div_add_mod (total + limit - 1) limit
  have rest := Nat.mod_lt (total + limit - 1) positive
  rw [lastPage, Nat.mul_comm]
  omega

/-! ## All pages -/

/-- A page up to the last one begins within the result. -/
theorem mul_lt_of_lt_lastPage {number total limit : ℕ} (within : number < lastPage total limit) :
    number * limit < total := by
  have whole := Nat.div_mul_le_self (total + limit - 1) limit
  have last : (number + 1) * limit ≤ (total + limit - 1) / limit * limit :=
    Nat.mul_le_mul_right limit within
  rcases Nat.eq_zero_or_pos limit with rfl | positive
  · rw [lastPage, Nat.div_zero] at within
    exact absurd within (Nat.not_lt_zero number)
  · rw [Nat.succ_mul] at last
    omega

/-- Pages that start where they should and keep rows of the same time together hold every matching
row once. -/
theorem partitionedInto_of_keepTies
    (answers : (buildFilteredQuery reader query).run db = (.ok rows, db))
    (positive : 0 < query.limit) (reachable : PagesReachable reader query db)
    (together : ∀ number, ¬ Splits creationTime rows (number * query.getEffectiveLimit))
    (orders : ℕ → NewestFirst) (exportOrder : NewestFirst) :
    PartitionedInto reader query db rows orders exportOrder := by
  have enough : rows.length ≤ lastPage rows.length query.getEffectiveLimit *
      query.getEffectiveLimit := length_le_lastPage_mul (getEffectiveLimit_pos positive)
  have collected : (allItems reader orders query (lastPage rows.length query.getEffectiveLimit)
      db).Perm (rows.map fun row => toResponse row.toEntity) := by
    rw [allItems_of_reachable answers reachable orders fun _ => mul_lt_of_lt_lastPage]
    exact (pages_perm together enough fun number => (orders (number + 1)).ordering rows).map _
  refine ⟨collected, ⟨_, Procedure.run_bind_ok answers, ?_⟩, ⟨_, Procedure.run_bind_ok answers, ?_⟩⟩
  · have written := (collected.map fun response => exportRow response.item).symm
    rw [List.map_map] at written
    exact ((exportOrder.perm rows).map _).trans written
  · rw [collected.length_eq, List.length_map]
    rfl

theorem nodup_responses (answers : (buildFilteredQuery reader query).run db = (.ok rows, db)) :
    (rows.map fun row => toResponse row.toEntity).Nodup := by
  apply List.Nodup.of_map fun response => response.item.id
  rw [List.map_map]
  exact ((buildFilteredQuery_sublist answers).map _).nodup db.primaryKey

/-- Two rows of the same time on different pages are enough for a row to be listed twice. -/
theorem exists_not_partitionedInto
    (answers : (buildFilteredQuery reader query).run db = (.ok rows, db))
    (positive : 0 < query.limit) (reachable : PagesReachable reader query db) {number : ℕ}
    (splits : Splits creationTime rows (number * query.getEffectiveLimit))
    (exportOrder : NewestFirst) :
    ∃ orders, ¬ PartitionedInto reader query db rows orders exportOrder := by
  obtain ⟨lists, orderings, repeats⟩ := exists_orders_not_nodup (getEffectiveLimit_pos positive)
    (length_le_lastPage_mul (getEffectiveLimit_pos positive)) splits
  choose order sorts using fun number => exists_newestFirst (orderings number)
  refine ⟨fun number => order (number - 1), ?_⟩
  intro partitioned
  have listed := partitioned.items.nodup_iff.mpr (nodup_responses answers)
  rw [allItems_of_reachable answers reachable _ fun _ => mul_lt_of_lt_lastPage] at listed
  simp only [Nat.add_sub_cancel, sorts] at listed
  exact repeats (listed.of_map _)

/-- The pages of one order hold every matching row once only if they start where they should. -/
theorem reachable_of_partitionedInto
    (answers : (buildFilteredQuery reader query).run db = (.ok rows, db))
    (positive : 0 < query.limit) (order exportOrder : NewestFirst)
    (partitioned : PartitionedInto reader query db rows (fun _ => order) exportOrder) :
    PagesReachable reader query db := by
  intro rows' answers' number inside
  cases answers.symm.trans answers'
  have ordered := (order.perm rows).map fun row => toResponse row.toEntity
  have items := partitioned.items
  rw [allItems_of_order answers] at items
  refine start_of_perm (getEffectiveLimit_pos positive)
    (ordered.nodup_iff.mpr (nodup_responses answers)) ?_ (items.trans ordered.symm) number ?_
  · exact fun number later last order found => skip_mono order found
  · rw [ordered.length_eq, List.length_map]
    exact inside

/-- The pages partition the matching rows, whatever the database does with rows of the same
time, exactly when they start where they should and such rows are never on different pages. -/
theorem pagesPartition_iff (reader : DateReader) (query : GetTransactionsQueryDto) (db : Db)
    (positive : 0 < query.limit) :
    PagesPartition reader query db ↔
      PagesReachable reader query db ∧ PagesKeepTies reader query db := by
  refine ⟨?_, fun conditions rows answers => partitionedInto_of_keepTies answers positive
    conditions.1 (conditions.2 rows answers)⟩
  intro partition
  obtain ⟨order, -⟩ := exists_newestFirst (exists_ordering creationTime []).choose_spec
  have reachable : PagesReachable reader query db := by
    intro rows answers
    exact reachable_of_partitionedInto answers positive order order
      (partition rows answers _ order) rows answers
  refine ⟨reachable, ?_⟩
  intro rows answers number splits
  obtain ⟨orders, fails⟩ := exists_not_partitionedInto answers positive reachable splits order
  exact fails (partition rows answers orders order)

/-! ## Samples -/

/-- A query for pages of one row, without a filter. -/
def onePerPage : GetTransactionsQueryDto := ⟨1, 1, none, none, none⟩

theorem buildFilteredQuery_onePerPage (db : Db) :
    (buildFilteredQuery utcReader onePerPage).run db = (.ok db.transactions, db) :=
  congrArg (fun rows => (Except.ok rows, db)) (List.filter_eq_self.mpr fun _ _ => rfl)

/-- Two rows are on pages that start where they should. -/
theorem reachable_onePerPage (few : db.transactions.length ≤ 2) :
    PagesReachable utcReader onePerPage db := by
  refine pagesReachable_of_length Nat.one_pos fun rows answers => ?_
  cases (buildFilteredQuery_onePerPage db).symm.trans answers
  exact few.trans (by norm_num)

/-- A single row is on its page. -/
theorem sampleDb_pagesPartition : PagesPartition utcReader onePerPage sampleDb := by
  refine (pagesPartition_iff utcReader onePerPage sampleDb Nat.one_pos).mpr
    ⟨reachable_onePerPage (by decide), ?_⟩
  intro rows answers number splits
  cases (buildFilteredQuery_onePerPage sampleDb).symm.trans answers
  obtain ⟨row, -, before, after⟩ := splits
  have one : notOlder creationTime sampleDb.transactions row ≤ 1 := List.countP_le_length
  omega

/-- A store with two rows of the same time. -/
def sameTimeDb : Db where
  transactions := [sampleRow, { sampleRow with id := "other" }]
  editLogs := []
  primaryKey := by decide
  foreignKey := fun _ member => absurd member List.not_mem_nil

/-- Pages of one row may list one of two rows of the same time twice. -/
theorem not_pagesPartition_sameTimeDb : ¬ PagesPartition utcReader onePerPage sameTimeDb := by
  intro partition
  have answers := buildFilteredQuery_onePerPage sameTimeDb
  have splits : Splits creationTime sameTimeDb.transactions (1 * onePerPage.getEffectiveLimit) :=
    ⟨sampleRow, List.mem_cons_self, by decide, by decide⟩
  obtain ⟨ordered, ordering⟩ := exists_ordering creationTime sameTimeDb.transactions
  obtain ⟨order, -⟩ := exists_newestFirst ordering
  obtain ⟨orders, fails⟩ := exists_not_partitionedInto answers Nat.one_pos
    (reachable_onePerPage (by decide)) splits order
  exact fails (partition _ answers orders order)

end BirrTrack.Transactions
