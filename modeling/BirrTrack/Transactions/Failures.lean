import BirrTrack.Foundation.Triples
import BirrTrack.Transactions.Validation

/-! # What the service throws

An update throws `NotFoundException` only when its row is missing (`meets_update`); every other
failure is internal. A query fails for parameters that the database cannot read
(`run_buildFilteredQuery`), whatever it holds.
-/

namespace BirrTrack.Transactions

open Js Database

variable {reader : DateReader} {db after : Db} {row : TransactionRow} {id : String}

/-- A statement that the database rejects, or `null.toFixed(2)`. -/
def Internal (failure : Failure) : Prop := failure = .queryFailed ∨ failure = .typeError

/-- The row has this id. -/
def Finds (id : String) (row : TransactionRow) (db : Db) : Prop := db.find id = some row

/-! ## Updates -/

theorem transactions_of_appendLog {log : EditLog} (appended : db.appendLog log = some after) :
    after.transactions = db.transactions := by
  unfold Db.appendLog at appended
  split at appended
  next =>
    cases appended
    rfl
  next => cases appended

theorem meets_writeEditLog (existing : Transaction) (dto : UpdateTransactionDto)
    (editedBy : String) (field : EditableTransactionField) :
    Procedure.Meets (Finds id row) (writeEditLog existing dto editedBy field)
      (fun _ => Finds id row) Internal := by
  unfold writeEditLog
  simp only
  split
  · exact .pure fun _ found => found
  · refine .statement ?_ ?_
    · intro db _ after found effect
      split at effect
      next => cases effect
      next appended =>
        cases effect
        obtain ⟨log, -, appends⟩ := Option.bind_eq_some_iff.mp appended
        rw [Finds, Db.find, transactions_of_appendLog appends]
        exact found
    · intro db failure found effect
      split at effect
      next =>
        cases effect
        exact Or.inl rfl
      next => cases effect

/-- Preparing the new values throws for a null amount only. -/
theorem prepareUpdatePayload_error {dto : UpdateTransactionDto} {failure : Failure}
    (throws : prepareUpdatePayload reader dto = .error failure) : Internal failure := by
  unfold prepareUpdatePayload at throws
  cases given : dto.amount with
  | null =>
      rw [given] at throws
      cases throws
      exact Or.inr rfl
  | _ =>
      rw [given] at throws
      cases throws

theorem meets_updateTransaction (payload : UpdatePayload) :
    Procedure.Meets (Finds id row) (updateTransaction reader id payload)
      (fun _ db => ∃ row, Finds id row db) Internal := by
  refine .statement ?_ ?_
  · intro db _ after found effect
    split at effect
    next => cases effect
    next change sets =>
      cases effect
      exact ⟨_, Db.find_update found⟩
  · intro db failure found effect
    split at effect
    next =>
      cases effect
      exact Or.inl rfl
    next => cases effect

theorem meets_findOne :
    Procedure.Meets (Finds id row) (findOne id)
      (fun found db => found = some row.toEntity ∧ Finds id row db) Internal := by
  refine .query ?_ ?_
  · intro db found known answered
    cases answered
    exact ⟨congrArg (Option.map TransactionRow.toEntity) known, known⟩
  · intro db failure _ impossible
    cases impossible

theorem meets_storeUpdate (dto : UpdateTransactionDto) :
    Procedure.Meets (Finds id row) (storeUpdate reader id dto) (fun _ _ => True) Internal := by
  have prepared : Procedure.Meets (Finds id row)
      (Procedure.ofExcept (prepareUpdatePayload reader dto)) (fun _ => Finds id row) Internal :=
    .query (fun found _ => found) fun _ throws => prepareUpdatePayload_error throws
  have reread : Procedure.Meets (fun db => ∃ row, Finds id row db) (findOne id)
      (fun found _ => ∃ saved, found = some saved) Internal := by
    refine ⟨?_, ?_⟩
    · intro db found after known ran
      obtain ⟨row, known⟩ := known
      exact ⟨_, (meets_findOne.returns known ran).1⟩
    · intro db failure after known ran
      obtain ⟨row, known⟩ := known
      exact meets_findOne.throws known ran
  refine prepared.bind fun payload => (meets_updateTransaction payload).bind fun _ =>
    reread.bind fun found => ?_
  split
  · refine .throw fun _ impossible => ?_
    obtain ⟨saved, impossible⟩ := impossible
    cases impossible
  · exact .pure fun _ _ => trivial

theorem meets_commitUpdate (existing : Transaction) (dto : UpdateTransactionDto)
    (editedBy : String) :
    Procedure.Meets (Finds existing.id row) (commitUpdate reader existing dto editedBy)
      (fun _ _ => True) Internal := by
  have logged : Procedure.Meets (Finds existing.id row)
      (forM (getUpdateFields dto) (writeEditLog existing dto editedBy))
      (fun _ => Finds existing.id row) Internal :=
    .forM fun field _ => meets_writeEditLog existing dto editedBy field
  exact .transaction (logged.bind fun _ => meets_storeUpdate dto)

theorem meets_updateExisting (existing : Transaction) (dto : UpdateTransactionDto)
    (editedBy : String) :
    Procedure.Meets (Finds existing.id row) (updateExisting reader existing dto editedBy)
      (fun _ _ => True) Internal := by
  unfold updateExisting
  split
  · exact .pure fun _ _ => trivial
  · exact (meets_commitUpdate existing dto editedBy).bind fun _ => .pure fun _ _ => trivial

/-- An update whose row exists throws no `NotFoundException`. -/
theorem meets_update (dto : UpdateTransactionDto) (editedBy : String) :
    Procedure.Meets (Finds id row) (update reader id dto editedBy) (fun _ _ => True) Internal := by
  refine ⟨fun _ _ => trivial, ?_⟩
  intro db failure after found ran
  have sameId : row.toEntity.id = id := (Db.find_eq_some.mp found).2
  subst sameId
  rw [run_update_of_find found] at ran
  exact (meets_updateExisting row.toEntity dto editedBy).throws found ran

/-- The message of the exception for a missing row names its id. -/
theorem run_update_of_missing {dto : UpdateTransactionDto} {editedBy : String}
    (missing : db.find id = none) :
    (update reader id dto editedBy).run db =
      (.error (.notFound s!"Transaction {id} not found"), db) := by
  have read : Procedure.run (findOne id) db = (.ok none, db) := by
    rw [findOne, Procedure.run_query, missing, Option.map_none]
  rw [update, Procedure.run_bind_ok read, Procedure.run_throw]

theorem meets_create (dto : CreateTransactionDto) (generated : Generated) :
    Procedure.Meets (fun _ => True) (create reader generated dto) (fun _ _ => True) Internal := by
  refine .statement (fun _ _ => trivial) ?_
  intro db failure _ effect
  split at effect
  next =>
    cases effect
    exact Or.inl rfl
  next => cases effect

/-! ## Queries -/

/-- The database can read every parameter that the query gives. -/
structure GetTransactionsQueryDto.Readable (reader : DateReader)
    (queryDto : GetTransactionsQueryDto) : Prop where
  startDate : ∀ date, queryDto.startDate = some date → date ≠ "" → DenotesInstant reader date
  endDate : ∀ date, queryDto.endDate = some date → date ≠ "" → DenotesInstant reader date
  telegramUserId : ∀ user, queryDto.telegramUserId = some user → user ≠ "" → IsBigint user

/-- A given parameter is converted; an absent or empty one is not. -/
theorem isSome_mapM_given {α : Type} {convert : String → Option α} {property : Option String} :
    ((property.filter (· ≠ "")).mapM convert).isSome = true ↔
      ∀ text, property = some text → text ≠ "" → (convert text).isSome = true := by
  cases property with
  | none =>
      refine iff_of_true rfl ?_
      intro text given
      cases given
  | some text =>
      by_cases empty : text = ""
      · subst empty
        refine iff_of_true rfl ?_
        intro text given nonempty
        cases given
        exact absurd rfl nonempty
      · have kept : (some text).filter (fun text => decide (text ≠ "")) = some text := by
          rw [Option.filter_some, if_pos (decide_eq_true empty)]
        rw [kept, mapM_some, Option.isSome_map]
        refine ⟨?_, fun reads => reads text rfl empty⟩
        intro reads other given _
        cases given
        exact reads

/-- A query answers rows, whatever the table holds, exactly when its parameters can be read. -/
theorem run_buildFilteredQuery (queryDto : GetTransactionsQueryDto) (db : Db) :
    (queryDto.Readable reader → ∃ rows, (buildFilteredQuery reader queryDto).run db =
        (.ok rows, db)) ∧
      (¬ queryDto.Readable reader → (buildFilteredQuery reader queryDto).run db =
        (.error .queryFailed, db)) := by
  have date : ∀ property : Option String,
      (∀ text, property = some text → text ≠ "" → DenotesInstant reader text) ↔
        ((property.filter (· ≠ "")).mapM fun text =>
          Timestamptz.ofDate reader (newDate reader text)).isSome = true := by
    intro property
    rw [isSome_mapM_given]
    simp only [isSome_timestamptz]
  have user : ∀ property : Option String,
      (∀ text, property = some text → text ≠ "" → IsBigint text) ↔
        ((property.filter (· ≠ "")).mapM Bigint.ofText).isSome = true := by
    intro property
    rw [isSome_mapM_given]
    simp only [isSome_bigint]
  have readable : queryDto.Readable reader ↔
      (∃ first, (queryDto.startDate.filter (· ≠ "")).mapM (fun text =>
          Timestamptz.ofDate reader (newDate reader text)) = some first) ∧
        (∃ last, (queryDto.endDate.filter (· ≠ "")).mapM (fun text =>
          Timestamptz.ofDate reader (newDate reader text)) = some last) ∧
        ∃ user, (queryDto.telegramUserId.filter (· ≠ "")).mapM Bigint.ofText = some user := by
    simp only [← Option.isSome_iff_exists, ← date, ← user]
    refine ⟨?_, ?_⟩
    · exact fun readable => ⟨readable.startDate, readable.endDate, readable.telegramUserId⟩
    · exact fun conditions => ⟨conditions.1, conditions.2.1, conditions.2.2⟩
  unfold buildFilteredQuery
  simp only [Procedure.run_query, readable]
  refine ⟨?_, ?_⟩
  · intro conditions
    obtain ⟨⟨first, startDate⟩, ⟨last, endDate⟩, user, telegramUserId⟩ := conditions
    rw [startDate, endDate, telegramUserId]
    exact ⟨_, rfl⟩
  · intro unreadable
    split
    next => rfl
    next startDate endDate telegramUserId parameters =>
      refine absurd ?_ unreadable
      simp only [Option.bind_eq_bind, Option.bind_eq_some_iff, Option.pure_def,
        Option.some_inj] at parameters
      obtain ⟨first, startDate, last, endDate, user, telegramUserId, -⟩ := parameters
      exact ⟨⟨first, startDate⟩, ⟨last, endDate⟩, user, telegramUserId⟩

/-- Whatever is made of the rows of a query, it is made exactly when its parameters can be
read. -/
theorem run_query {α : Type} (queryDto : GetTransactionsQueryDto)
    (answer : List TransactionRow → α) (db : Db) :
    let query : Procedure Db Failure α := do
      let rows ← buildFilteredQuery reader queryDto
      return answer rows
    (queryDto.Readable reader → ∃ a after, query.run db = (.ok a, after)) ∧
      (¬ queryDto.Readable reader → query.run db = (.error .queryFailed, db)) := by
  obtain ⟨reads, rejects⟩ := @run_buildFilteredQuery reader queryDto db
  refine ⟨?_, ?_⟩
  · intro readable
    obtain ⟨rows, answers⟩ := reads readable
    exact ⟨answer rows, db, Procedure.run_bind_ok answers⟩
  · exact fun unreadable => Procedure.run_bind_error (rejects unreadable)

/-- A page is answered exactly when besides the parameters its offset is one that the database
takes. -/
theorem run_findAll (order : NewestFirst) (queryDto : GetTransactionsQueryDto) (db : Db) :
    (queryDto.Readable reader ∧ queryDto.skip.isSome = true →
        ∃ page, (findAll reader order queryDto).run db = (.ok page, db)) ∧
      (¬ (queryDto.Readable reader ∧ queryDto.skip.isSome = true) →
        (findAll reader order queryDto).run db = (.error .queryFailed, db)) := by
  obtain ⟨reads, rejects⟩ := @run_buildFilteredQuery reader queryDto db
  unfold findAll
  refine ⟨?_, ?_⟩
  · intro conditions
    obtain ⟨readable, inRange⟩ := conditions
    obtain ⟨rows, answers⟩ := reads readable
    obtain ⟨skip, found⟩ := Option.isSome_iff_exists.mp inRange
    rw [Procedure.run_bind_ok answers, found]
    exact ⟨_, rfl⟩
  · intro fails
    by_cases readable : queryDto.Readable reader
    · obtain ⟨rows, answers⟩ := reads readable
      have beyond : queryDto.skip = none := by
        rw [← Option.not_isSome_iff_eq_none]
        exact fun inRange => fails ⟨readable, inRange⟩
      rw [Procedure.run_bind_ok answers, beyond]
      rfl
    · exact Procedure.run_bind_error (rejects readable)

end BirrTrack.Transactions
