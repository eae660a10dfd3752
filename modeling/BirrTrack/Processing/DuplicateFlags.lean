import BirrTrack.Foundation.EventMachine
import BirrTrack.Processing.Retries
import BirrTrack.Transactions.Update

/-! # Duplicate flags over whole runs

Image jobs and PATCH updates follow one another. A job flags its row when an earlier row has its
key, and no update touches the flag again, whatever becomes of the keys.
-/

namespace BirrTrack.Processing

open Js Transactions Database

/-! ## Repeated values -/

section Repeats

variable {α : Type} [DecidableEq α]

/-- For each value of a list, whether it was seen before. -/
def repeats (seen : List α) : List α → List Bool
  | [] => []
  | value :: later => decide (value ∈ seen) :: repeats (seen ++ [value]) later

theorem repeats_append (seen values : List α) (last : α) :
    repeats seen (values ++ [last]) = repeats seen values ++ [decide (last ∈ seen ++ values)] := by
  induction values generalizing seen with
  | nil => rw [List.nil_append, List.append_nil, repeats, repeats, repeats, List.nil_append]
  | cons value later ih =>
      rw [List.cons_append, repeats, repeats, ih, List.append_assoc, List.singleton_append,
        List.cons_append]

/-- Flags say which values are repeated when each of them says it of its own value. -/
theorem map_eq_repeats_iff {β : Type} {flag : β → Bool} {value : β → α} {seen : List α}
    {items : List β} :
    items.map flag = repeats seen (items.map value) ↔
      ∀ front item back, items = front ++ item :: back →
        (flag item = true ↔ value item ∈ seen ++ front.map value) := by
  induction items generalizing seen with
  | nil =>
      refine iff_of_true rfl ?_
      intro front item back split
      cases front <;> cases split
  | cons first later ih =>
      rw [List.map_cons, List.map_cons, repeats, List.cons_eq_cons, ih, Bool.eq_iff_iff,
        decide_eq_true_eq]
      refine ⟨?_, ?_⟩
      · intro both front item back split
        obtain ⟨here, there⟩ := both
        cases front with
        | nil =>
            obtain ⟨rfl, rfl⟩ := List.cons_eq_cons.mp split
            rw [List.map_nil, List.append_nil]
            exact here
        | cons other front =>
            obtain ⟨rfl, rfl⟩ := List.cons_eq_cons.mp split
            rw [there front item back rfl, List.append_assoc, List.singleton_append, List.map_cons]
      · intro all
        refine ⟨?_, ?_⟩
        · rw [all [] first later rfl, List.map_nil, List.append_nil]
        · intro front item back split
          rw [all (first :: front) item back (by rw [split, List.cons_append]), List.append_assoc,
            List.singleton_append, List.map_cons]

end Repeats

/-! ## Jobs and updates -/

inductive StoreEvent where
  | job (attempt : Attempt) (payload : ImageProcessingJobPayload)
  | patch (id : String) (dto : UpdateTransactionDto) (editedBy : String)

/-- Jobs and updates that succeed, one after the other. -/
def storeMachine (server : Server) : EventMachine World StoreEvent where
  step world
    | .job attempt payload =>
        match (processImageJob server attempt payload).run world with
        | (.ok _, after) => some after
        | (.error _, _) => none
    | .patch id dto editedBy =>
        match (inDb (update server.reader id dto editedBy)).run world with
        | (.ok _, after) => some after
        | (.error _, _) => none

/-- Every row is flagged exactly if some row created earlier has its key now. -/
def FlagsAgree (world : World) : Prop :=
  ∀ front row back, world.db.transactions = front ++ row :: back →
    (row.isDuplicate = true ↔ ∃ earlier ∈ front, earlier.key = row.key)

/-- The row was created by a job of the run, and its flag still says whether some earlier row had
its key, with the number that the job has read, at that moment. -/
def FlaggedAtCreation (server : Server) (events : List StoreEvent) (row : TransactionRow) : Prop :=
  ∃ front attempt payload back before after receipt created,
    events = front ++ .job attempt payload :: back ∧
      (storeMachine server).run emptyWorld front = some before ∧
      (storeMachine server).step before (.job attempt payload) = some after ∧
      receiptOf server attempt payload = .ok (some receipt) ∧
      Varchar.ofString 128 receipt.transactionId = some created.transactionId ∧
      after.db.transactions = before.db.transactions ++ [created] ∧ created.id = row.id ∧
      row.isDuplicate = created.isDuplicate ∧
      (created.isDuplicate = true ↔ ∃ earlier ∈ before.db.transactions,
        earlier.key = created.keyWith receipt.transactionId)

/-- An update leaves it as it is, for every row, whether an earlier row has its key; a job whose
number the column cuts adds no key that the table has. -/
def KeepsRepeats (server : Server) (before : World) : StoreEvent → Prop
  | .job attempt payload =>
      ∀ receipt row, receiptOf server attempt payload = .ok (some receipt) →
        (receipt.toNew server.reader).toRow server.reader attempt.generated = some row →
          128 < receipt.transactionId.length →
            ∀ earlier ∈ before.db.transactions, earlier.key ≠ row.key
  | .patch id dto editedBy =>
      ∀ after, (storeMachine server).step before (.patch id dto editedBy) = some after →
        repeats [] (after.db.transactions.map TransactionRow.key) =
          repeats [] (before.db.transactions.map TransactionRow.key)

section Steps

variable {server : Server} {world after : World} {row : TransactionRow}

/-- A job that succeeds adds the row of its receipt, or nothing at all without one. -/
theorem storeMachine_job {attempt : Attempt} {payload : ImageProcessingJobPayload}
    (step : (storeMachine server).step world (.job attempt payload) = some after) :
    (receiptOf server attempt payload = .ok none ∧ after = world) ∨
      ∃ receipt row, receiptOf server attempt payload = .ok (some receipt) ∧
        (receipt.toNew server.reader).toRow server.reader attempt.generated = some row ∧
        after.db.transactions = world.db.transactions ++ [recorded receipt row world.db] := by
  have ran : (processImageJob server attempt payload).run world = (.ok (), after) := by
    simp only [storeMachine] at step
    split at step
    next ran =>
      cases step
      exact ran
    next => cases step
  cases stored : storedRow server payload attempt with
  | none =>
      obtain ⟨result, ran', ended⟩ := run_of_not_stored stored world
      obtain ⟨rfl, rfl⟩ := Prod.mk.inj (ran.symm.trans ran')
      exact Or.inl ⟨skips_eq_true.mp (ended.mp rfl), rfl⟩
  | some row =>
      by_cases fresh : attempt.generated.id ∉ world.db.transactions.map TransactionRow.id
      · obtain ⟨receipt, result, after', read, records, ran', rows, -⟩ := run_of_stored stored fresh
        have same : after = after' := congrArg Prod.snd (ran.symm.trans ran')
        exact Or.inr ⟨receipt, row, read, records.stored, by rw [same, rows]⟩
      · obtain ⟨receipt, read, -⟩ := storedRow_eq_some.mp stored
        have prevented : ∀ row, Records server attempt receipt row →
            row.id ∈ world.db.transactions.map TransactionRow.id := by
          intro row records
          rw [(toRow_eq_some.mp records.stored).1.1]
          exact not_not.mp fresh
        obtain ⟨failure, failed⟩ := run_recordReceipt_error prevented
        rw [run_processImageJob, read] at ran
        cases ran.symm.trans failed

/-- The flag of a recorded row. -/
theorem recorded_isDuplicate (receipt : CreateTransactionDto) (row : TransactionRow) (db : Db) :
    (recorded receipt row db).isDuplicate = true ↔
      ∃ earlier ∈ db.transactions, earlier.key = row.keyWith receipt.transactionId := by
  simp only [recorded, List.any_eq_true, decide_eq_true_eq]

/-- The flag of a recorded row agrees with its key unless the column has cut the number and made
it the one of an earlier row. -/
theorem recorded_agrees_iff {receipt : CreateTransactionDto} {generated : Generated} {db : Db}
    (stored : (receipt.toNew server.reader).toRow server.reader generated = some row) :
    ((recorded receipt row db).isDuplicate = true ↔
        ∃ earlier ∈ db.transactions, earlier.key = row.key) ↔
      (128 < receipt.transactionId.length →
        ∀ earlier ∈ db.transactions, earlier.key ≠ row.key) := by
  rw [recorded_isDuplicate]
  by_cases short : receipt.transactionId.length ≤ 128
  · rw [(keyWith_eq_key_iff stored).mpr short]
    exact iff_of_true Iff.rfl fun long => absurd short (not_le.mpr long)
  · have unfound : ¬ ∃ earlier ∈ db.transactions,
        earlier.key = row.keyWith receipt.transactionId := by
      rintro ⟨earlier, -, found⟩
      exact short ((keyWith_eq_key_iff stored).mp (keyWith_eq_key_of_found stored found))
    rw [iff_false_left unfound, imp_iff_right (not_le.mp short)]
    exact not_exists.trans (forall_congr' fun earlier => not_and)

/-- An update that succeeds changes rows in place, and neither their ids nor their flags. -/
theorem storeMachine_patch {id : String} {dto : UpdateTransactionDto} {editedBy : String}
    (step : (storeMachine server).step world (.patch id dto editedBy) = some after) :
    ∃ changed : TransactionRow → TransactionRow,
      after.db.transactions = world.db.transactions.map changed ∧
        ∀ row, (changed row).id = row.id ∧ (changed row).isDuplicate = row.isDuplicate := by
  have ran : ∃ response, (inDb (update server.reader id dto editedBy)).run world =
      (.ok response, after) := by
    simp only [storeMachine] at step
    split at step
    next response _ ran =>
      cases step
      exact ⟨response, ran⟩
    next => cases step
  obtain ⟨response, ran⟩ := ran
  rw [inDb, Procedure.run_within] at ran
  have updated : (update server.reader id dto editedBy).run world.db =
      (.ok response, after.db) := by
    have result : ((update server.reader id dto editedBy).run world.db).1 = .ok response :=
      congrArg Prod.fst ran
    have reached : ((update server.reader id dto editedBy).run world.db).2 = after.db :=
      congrArg (fun outcome => outcome.2.db) ran
    exact Prod.ext result reached
  obtain ⟨row, found⟩ := find_of_update_ok updated
  obtain ⟨logs, change, -, -, rows, -⟩ := (update_eq_ok found).mp ⟨response, updated⟩
  refine ⟨_, rows, ?_⟩
  intro row
  split
  next => exact ⟨rfl, rfl⟩
  next => exact ⟨rfl, rfl⟩

end Steps

theorem flagsAgree_iff {world : World} :
    FlagsAgree world ↔ world.db.transactions.map TransactionRow.isDuplicate =
      repeats [] (world.db.transactions.map TransactionRow.key) := by
  simp only [FlagsAgree, map_eq_repeats_iff, List.nil_append, List.mem_map]

/-! ## Runs -/

section Runs

variable {server : Server} {events : List StoreEvent} {world : World}

/-- A row of a run stays a row of the longer run. -/
theorem FlaggedAtCreation.append {row changed : TransactionRow} (event : StoreEvent)
    (flagged : FlaggedAtCreation server events row) (sameId : changed.id = row.id)
    (sameFlag : changed.isDuplicate = row.isDuplicate) :
    FlaggedAtCreation server (events ++ [event]) changed := by
  obtain ⟨front, attempt, payload, back, before, after, receipt, created, split, reached, step,
    read, number, rows, id, flag, meaning⟩ := flagged
  refine ⟨front, attempt, payload, back ++ [event], before, after, receipt, created, ?_, reached,
    step, read, number, rows, id.trans sameId.symm, sameFlag.trans flag, meaning⟩
  rw [split, List.append_assoc, List.cons_append]

theorem flaggedAtCreation_of_run
    (reached : (storeMachine server).run emptyWorld events = some world) :
    ∀ row ∈ world.db.transactions, FlaggedAtCreation server events row := by
  induction events using List.reverseRecOn generalizing world with
  | nil =>
      cases reached
      intro row member
      exact absurd member List.not_mem_nil
  | append_singleton events event ih =>
      obtain ⟨before, earlier, last⟩ := (storeMachine server).run_append_eq_some reached
      have step : (storeMachine server).step before event = some world := by
        rw [EventMachine.run_cons] at last
        obtain ⟨after, step, same⟩ := Option.bind_eq_some_iff.mp last
        cases same
        exact step
      intro row member
      cases event with
      | job attempt payload =>
          rcases storeMachine_job step with ⟨-, rfl⟩ | ⟨receipt, new, read, stored, rows⟩
          · exact (ih earlier row member).append _ rfl rfl
          · rw [rows, List.mem_append, List.mem_singleton] at member
            rcases member with old | rfl
            · exact (ih earlier row old).append _ rfl rfl
            · obtain ⟨-, -, -, -, number, -⟩ := toRow_eq_some.mp stored
              exact ⟨events, attempt, payload, [], before, world, receipt,
                recorded receipt new before.db, rfl, earlier, step, read, number, rows, rfl, rfl,
                recorded_isDuplicate receipt new before.db⟩
      | patch id dto editedBy =>
          obtain ⟨changed, rows, kept⟩ := storeMachine_patch step
          rw [rows, List.mem_map] at member
          obtain ⟨origin, member, rfl⟩ := member
          exact (ih earlier origin member).append _ (kept origin).1 (kept origin).2

/-- A job flags its new row by the keys of the rows before it, looked up with the number as it was
read; an update changes no flag. -/
theorem flagsAgree_step {before after : World} {event : StoreEvent} (agree : FlagsAgree before)
    (step : (storeMachine server).step before event = some after) :
    FlagsAgree after ↔ KeepsRepeats server before event := by
  rw [flagsAgree_iff] at agree
  rw [flagsAgree_iff]
  cases event with
  | job attempt payload =>
      rcases storeMachine_job step with ⟨read, rfl⟩ | ⟨receipt, new, read, stored, rows⟩
      · refine iff_of_true agree ?_
        intro receipt row read'
        cases read.symm.trans read'
      · have agrees : after.db.transactions.map TransactionRow.isDuplicate =
            repeats [] (after.db.transactions.map TransactionRow.key) ↔
              ((recorded receipt new before.db).isDuplicate = true ↔
                ∃ earlier ∈ before.db.transactions, earlier.key = new.key) := by
          rw [rows, List.map_append, List.map_append, List.map_singleton, List.map_singleton,
            repeats_append, agree, List.nil_append, List.append_cancel_left_eq, List.cons_eq_cons,
            and_iff_left rfl, Bool.eq_iff_iff, decide_eq_true_eq, List.mem_map]
          rfl
        rw [agrees, recorded_agrees_iff stored]
        refine ⟨?_, fun keeps => keeps receipt new read stored⟩
        intro apart receipt' row read' stored'
        cases read.symm.trans read'
        cases stored.symm.trans stored'
        exact apart
  | patch id dto editedBy =>
      obtain ⟨changed, rows, kept⟩ := storeMachine_patch step
      have flags : after.db.transactions.map TransactionRow.isDuplicate =
          before.db.transactions.map TransactionRow.isDuplicate := by
        rw [rows, List.map_map]
        exact List.map_congr_left fun row _ => (kept row).2
      rw [flags, agree]
      refine ⟨?_, ?_⟩
      · intro same other step'
        cases step.symm.trans step'
        exact same.symm
      · intro keeps
        exact (keeps after step).symm

/-- Every row keeps the flag that its job gave it. The flags stay in agreement with the keys
exactly as long as no update changes it for some row whether an earlier row has its key, and no
job's number becomes that of an earlier key by being cut. -/
theorem duplicateFlags_of_run
    (reached : (storeMachine server).run emptyWorld events = some world) :
    (∀ row ∈ world.db.transactions, FlaggedAtCreation server events row) ∧
      ((storeMachine server).Always FlagsAgree emptyWorld events ↔
        (storeMachine server).EachStep (fun before event _ => KeepsRepeats server before event)
          emptyWorld events) := by
  refine ⟨flaggedAtCreation_of_run reached, ?_⟩
  have always : ∀ state : World, True := fun _ => trivial
  have initially : FlagsAgree emptyWorld := flagsAgree_iff.mpr rfl
  exact EventMachine.always_iff (fun _ _ next _ _ => always next)
    (fun _ _ _ _ agree step => flagsAgree_step agree step) (always emptyWorld) initially

end Runs

/-- A new transaction number. -/
def renumberDto : UpdateTransactionDto := { emptyDto with transactionId := .value "B99999" }

theorem renumberDto_valid (isDateString : String → Prop) : renumberDto.Valid isDateString where
  amount := trivial
  transactionId := ⟨by decide, by decide⟩
  timestamp := trivial
  bankName := trivial
  confidence := trivial
  imageUrl := trivial

/-- Two jobs for the same receipt, after which the first row is given another number. -/
def renumbering : List StoreEvent := [
  .job (sampleAttempt "first" noFaults) samplePayload,
  .job (sampleAttempt "second" noFaults) samplePayload,
  .patch "first" renumberDto "system"]

theorem run_renumbering : ∃ world,
    (storeMachine sampleServer).run emptyWorld renumbering = some world ∧
      world.db.transactions.map TransactionRow.isDuplicate = [false, true] ∧
      (world.db.transactions.map TransactionRow.key).Nodup := by
  have evaluated : ((storeMachine sampleServer).run emptyWorld renumbering).any (fun world =>
      world.db.transactions.map TransactionRow.isDuplicate = [false, true] ∧
        (world.db.transactions.map TransactionRow.key).Nodup) = true := by
    decide +kernel
  obtain ⟨world, reached, flags⟩ := (Option.any_eq_true _ _).mp evaluated
  exact ⟨world, reached, of_decide_eq_true flags⟩

/-- The flags of this run are those of the creation, and disagree with the keys at its end. -/
theorem renumbering_duplicateFlags : ∃ world,
    (storeMachine sampleServer).run emptyWorld renumbering = some world ∧
      (∀ row ∈ world.db.transactions, FlaggedAtCreation sampleServer renumbering row) ∧
      ((storeMachine sampleServer).Always FlagsAgree emptyWorld renumbering ↔
        (storeMachine sampleServer).EachStep
          (fun before event _ => KeepsRepeats sampleServer before event)
            emptyWorld renumbering) := by
  obtain ⟨world, reached, -⟩ := run_renumbering
  exact ⟨world, reached, duplicateFlags_of_run reached⟩

/-- The second row stays flagged although the first one no longer has its key. -/
theorem duplicateFlags_disagree :
    ¬ ∀ (server : Server) (isDateString : String → Prop) (events : List StoreEvent) (world : World),
      (∀ id dto editedBy, .patch id dto editedBy ∈ events → dto.Valid isDateString) →
      (storeMachine server).run emptyWorld events = some world → FlagsAgree world := by
  intro claim
  obtain ⟨world, reached, flags, distinct⟩ := run_renumbering
  have valid : ∀ id dto editedBy, StoreEvent.patch id dto editedBy ∈ renumbering →
      dto.Valid fun _ => True := by
    intro id dto editedBy member
    simp only [renumbering, List.mem_cons, reduceCtorEq, StoreEvent.patch.injEq, List.not_mem_nil,
      or_false, false_or] at member
    rw [member.2.1]
    exact renumberDto_valid _
  have agree := flagsAgree_iff.mp
    (claim sampleServer (fun _ => True) renumbering world valid reached)
  rw [flags] at agree
  rcases keys : world.db.transactions.map TransactionRow.key with - | ⟨first, - | ⟨second, later⟩⟩
  · rw [keys] at agree
    cases agree
  · rw [keys] at agree
    cases agree
  · rw [keys] at agree distinct
    simp only [repeats, List.nil_append, List.cons_eq_cons, List.mem_singleton,
      true_eq_decide_iff] at agree
    obtain ⟨-, same, -⟩ := agree
    exact (List.nodup_cons.mp distinct).1 (same ▸ List.mem_cons_self)

end BirrTrack.Processing
