import BirrTrack.Transactions.Service

/-! # Queries

What the filtered queries answer, for every content of the tables.
-/

namespace BirrTrack.Transactions

open Js Database

variable (reader : DateReader) (query : GetTransactionsQueryDto)

/-- A query is rejected whatever the table holds, or it picks rows by a condition of its own. -/
theorem buildFilteredQuery_spec :
    (∀ db, (buildFilteredQuery reader query).run db = (.error .queryFailed, db)) ∨
      ∃ picks : TransactionRow → Bool, ∀ db,
        (buildFilteredQuery reader query).run db = (.ok (db.transactions.filter picks), db) := by
  unfold buildFilteredQuery
  simp only [Procedure.run_query]
  split
  next => exact Or.inl fun _ => rfl
  next startDate endDate telegramUserId parameters => exact Or.inr ⟨_, fun _ => rfl⟩

theorem getSummary_spec :
    (∀ db, (getSummary reader query).run db = (.error .queryFailed, db)) ∨
      ∃ picks : TransactionRow → Bool, ∀ db,
        (getSummary reader query).run db =
          (.ok (summarize (db.transactions.filter picks)), db) := by
  rcases buildFilteredQuery_spec reader query with rejected | ⟨picks, answers⟩
  · exact Or.inl fun db => Procedure.run_bind_error (rejected db)
  · exact Or.inr ⟨picks, fun db => Procedure.run_bind_ok (answers db)⟩

/-- A summary over the rows after a change is the summary before with added rows counted in. -/
def SummaryAdds (added : List TransactionRow)
    (before after : Except Failure TransactionSummaryDto) : Prop :=
  (∃ failure, before = .error failure ∧ after = .error failure) ∨
    ∃ counted extra, extra.Sublist added ∧ before = .ok (summarize counted) ∧
      after = .ok (summarize (counted ++ extra))

theorem summaryAdds_of_append {before after : Db} {added : List TransactionRow}
    (rows : after.transactions = before.transactions ++ added) :
    SummaryAdds added ((getSummary reader query).run before).1
      ((getSummary reader query).run after).1 := by
  rcases getSummary_spec reader query with rejected | ⟨picks, answers⟩
  · exact Or.inl ⟨.queryFailed, by rw [rejected], by rw [rejected]⟩
  · refine Or.inr ⟨before.transactions.filter picks, added.filter picks, List.filter_sublist,
      by rw [answers], ?_⟩
    rw [answers, rows, List.filter_append]

end BirrTrack.Transactions
