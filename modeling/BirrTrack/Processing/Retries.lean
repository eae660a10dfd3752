import BirrTrack.Processing.Recording
import BirrTrack.Transactions.Queries

/-! # Retries of an image job

An attempt that fails after its row was stored, because the reply of `create` is lost or the
event cannot be emitted, is run again from the start and may store a second row. A run of a
job adds at most one row exactly when no attempt does so.
-/

namespace BirrTrack.Processing

open Js Transactions

/-- `DEFAULT_JOB_OPTIONS.attempts` -/
def DEFAULT_JOB_ATTEMPTS : ℕ := 3

/-! ## What an attempt does -/

section Attempts

variable (server : Server) (payload : ImageProcessingJobPayload)

/-- A critical field is missing, so that nothing is saved. -/
def skips (attempt : Attempt) : Bool :=
  match receiptOf server attempt payload with
  | .ok none => true
  | _ => false

/-- The row that an attempt gets as far as storing. -/
def storedRow (attempt : Attempt) : Option TransactionRow :=
  match receiptOf server attempt payload with
  | .ok (some receipt) =>
      if attempt.faults .findDuplicate = none ∧ attempt.faults .create ≠ some .before then
        (receipt.toNew server.reader).toRow server.reader attempt.generated
      else none
  | _ => none

/-- A failure strikes after the row is stored. -/
def Loses (attempt : Attempt) : Prop :=
  attempt.faults .create = some .after ∨ attempt.faults .emit ≠ none

instance : DecidablePred Loses := fun _ => inferInstanceAs (Decidable (_ ∨ _))

/-- The attempt fails, so that another one may follow. -/
def Fails (attempt : Attempt) : Prop :=
  skips server payload attempt = false ∧
    ((storedRow server payload attempt).isSome = true → Loses attempt)

/-- After an attempt that fails with its row stored, another one stores its row. -/
def StoresTwice (attempts : List Attempt) : Prop :=
  ∃ front first middle second back,
    attempts = front ++ first :: (middle ++ second :: back) ∧
      (∀ attempt ∈ front, Fails server payload attempt) ∧
      (storedRow server payload first).isSome = true ∧ Loses first ∧
      (∀ attempt ∈ middle, Fails server payload attempt) ∧
      (storedRow server payload second).isSome = true

/-- How many attempts of a run get as far as storing a row. -/
def storing : List Attempt → ℕ
  | [] => 0
  | attempt :: later =>
      if skips server payload attempt then 0
      else if (storedRow server payload attempt).isSome then
        if Loses attempt then storing later + 1 else 1
      else storing later

end Attempts

variable {server : Server} {payload : ImageProcessingJobPayload} {attempt : Attempt}
  {world after : World} {row : TransactionRow} {attempts : List Attempt}

theorem storedRow_eq_some :
    storedRow server payload attempt = some row ↔
      ∃ receipt, receiptOf server attempt payload = .ok (some receipt) ∧
        Records server attempt receipt row := by
  unfold storedRow
  refine ⟨?_, ?_⟩
  · intro stored
    split at stored
    next receipt read =>
      split at stored
      next allowed => exact ⟨receipt, read, allowed.1, allowed.2, stored⟩
      next => cases stored
    next => cases stored
  · intro conditions
    obtain ⟨receipt, read, looks, creates, stored⟩ := conditions
    rw [read]
    exact (if_pos ⟨looks, creates⟩).trans stored

theorem skips_eq_true : skips server payload attempt = true ↔
    receiptOf server attempt payload = .ok none := by
  unfold skips
  split
  next read => simp only [read]
  next others => simpa using others

theorem skips_of_stored (stored : (storedRow server payload attempt).isSome = true) :
    skips server payload attempt = false := by
  obtain ⟨row, stored⟩ := Option.isSome_iff_exists.mp stored
  obtain ⟨receipt, read, -⟩ := storedRow_eq_some.mp stored
  rw [← Bool.not_eq_true, skips_eq_true, read]
  exact fun same => nomatch same

/-- An attempt that gets as far as storing its row adds it, and fails only afterwards. -/
theorem run_of_stored (stored : storedRow server payload attempt = some row)
    (fresh : attempt.generated.id ∉ world.db.transactions.map TransactionRow.id) :
    ∃ receipt result after, receiptOf server attempt payload = .ok (some receipt) ∧
      Records server attempt receipt row ∧
      (processImageJob server attempt payload).run world = (result, after) ∧
      after.db.transactions = world.db.transactions ++ [recorded receipt row world.db] ∧
      (result = .ok () ↔ ¬ Loses attempt) := by
  obtain ⟨receipt, read, records⟩ := storedRow_eq_some.mp stored
  refine ⟨receipt, ?_⟩
  have id : row.id = attempt.generated.id := (toRow_eq_some.mp records.stored).1.1
  obtain ⟨db, inserted, ran⟩ := run_recordReceipt records (id ▸ fresh)
  have rows := (Db.insert_eq_some.mp inserted).2.1
  have whole := @run_processImageJob server attempt payload world
  rw [read] at whole
  simp only [ran] at whole
  rw [whole, Loses]
  cases createFault : attempt.faults .create with
  | some moment =>
      cases moment with
      | before => exact absurd createFault records.creates
      | after => exact ⟨_, _, read, records, rfl, rows, by simp⟩
  | none =>
      cases emitFault : attempt.faults .emit with
      | none => exact ⟨_, _, read, records, rfl, rows, by simp⟩
      | some moment =>
          cases moment with
          | before => exact ⟨_, _, read, records, rfl, rows, by simp⟩
          | after => exact ⟨_, _, read, records, rfl, rows, by simp⟩

/-- Any other attempt changes nothing; it ends normally if a critical field is missing. -/
theorem run_of_not_stored (unstored : storedRow server payload attempt = none) (world : World) :
    ∃ result, (processImageJob server attempt payload).run world = (result, world) ∧
      (result = .ok () ↔ skips server payload attempt = true) := by
  rw [run_processImageJob, skips_eq_true]
  cases read : receiptOf server attempt payload with
  | error failure => exact ⟨_, rfl, by simp⟩
  | ok receipt =>
      cases receipt with
      | none => exact ⟨_, rfl, by simp⟩
      | some receipt =>
          have never : ∀ row, Records server attempt receipt row →
              row.id ∈ world.db.transactions.map TransactionRow.id := by
            intro row records
            have stored := storedRow_eq_some.mpr ⟨receipt, read, records⟩
            rw [unstored] at stored
            cases stored
          obtain ⟨failure, ran⟩ := run_recordReceipt_error never
          exact ⟨_, ran, by simp⟩

/-! ## What a run adds -/

/-- The ids that the database will generate are all new. -/
def FreshIds (attempts : List Attempt) (world : World) : Prop :=
  (attempts.map (·.generated.id)).Nodup ∧
    ∀ attempt ∈ attempts, attempt.generated.id ∉ world.db.transactions.map TransactionRow.id

theorem runAttempts_of_ok (later : List Attempt)
    (ran : (processImageJob server attempt payload).run world = (.ok (), after)) :
    runAttempts server payload (attempt :: later) world = after := by
  rw [runAttempts, ran]

theorem runAttempts_of_error {failure : Failure} (later : List Attempt)
    (ran : (processImageJob server attempt payload).run world = (.error failure, after)) :
    runAttempts server payload (attempt :: later) world =
      runAttempts server payload later after := by
  rw [runAttempts, ran]

/-- A run adds a row for every attempt that gets as far as storing one. -/
theorem runAttempts_rows (fresh : FreshIds attempts world) :
    ∃ rows, rows.length = storing server payload attempts ∧
      (runAttempts server payload attempts world).db.transactions =
        world.db.transactions ++ rows := by
  induction attempts generalizing world with
  | nil => exact ⟨[], rfl, (List.append_nil _).symm⟩
  | cons attempt later ih =>
      obtain ⟨distinct, unused⟩ := fresh
      obtain ⟨notLater, distinct⟩ := List.nodup_cons.mp distinct
      have laterUnused := fun other member => unused other (List.mem_cons_of_mem attempt member)
      cases stored : storedRow server payload attempt with
      | none =>
          obtain ⟨result, ran, ended⟩ := run_of_not_stored stored world
          cases result with
          | ok _ =>
              refine ⟨[], ?_, by rw [runAttempts_of_ok later ran, List.append_nil]⟩
              simp only [storing, ended.mp rfl, ↓reduceIte, List.length_nil]
          | error failure =>
              have goesOn : skips server payload attempt = false := by
                rw [← Bool.not_eq_true, ← ended]
                exact fun same => nomatch same
              obtain ⟨rows, count, added⟩ := ih ⟨distinct, laterUnused⟩
              refine ⟨rows, ?_, by rw [runAttempts_of_error later ran, added]⟩
              simp only [storing, goesOn, stored, Option.isSome_none, Bool.false_eq_true,
                ↓reduceIte, count]
      | some row =>
          obtain ⟨receipt, result, after, -, records, ran, added, ended⟩ := run_of_stored stored
            (unused attempt List.mem_cons_self)
          have goesOn : skips server payload attempt = false :=
            skips_of_stored (by rw [stored]; rfl)
          have newId : (recorded receipt row world.db).id = attempt.generated.id :=
            (toRow_eq_some.mp records.stored).1.1
          cases result with
          | ok _ =>
              have kept : ¬ Loses attempt := ended.mp rfl
              refine ⟨[recorded receipt row world.db], ?_,
                by rw [runAttempts_of_ok later ran, added]⟩
              simp only [storing, goesOn, stored, kept, Option.isSome_some, Bool.false_eq_true,
                ↓reduceIte, List.length_singleton]
          | error failure =>
              have loses : Loses attempt := by
                by_contra kept
                cases ended.mpr kept
              have stillUnused : ∀ other ∈ later,
                  other.generated.id ∉ after.db.transactions.map TransactionRow.id := by
                intro other member present
                rw [added, List.map_append, List.mem_append] at present
                rcases present with earlier | last
                · exact laterUnused other member earlier
                · rw [List.map_singleton, List.mem_singleton, newId] at last
                  exact notLater (List.mem_map.mpr ⟨other, member, last⟩)
              obtain ⟨rows, count, addedLater⟩ := ih ⟨distinct, stillUnused⟩
              refine ⟨recorded receipt row world.db :: rows, ?_, ?_⟩
              · simp only [storing, goesOn, stored, loses, Option.isSome_some, Bool.false_eq_true,
                  ↓reduceIte, List.length_cons, count]
              · rw [runAttempts_of_error later ran, addedLater, added, List.append_assoc,
                  List.singleton_append]

/-! ## When two attempts store -/

/-- After an attempt that fails, the attempts behind it count too. -/
theorem storing_of_fails (later : List Attempt) (fails : Fails server payload attempt) :
    storing server payload (attempt :: later) =
      storing server payload later +
        if (storedRow server payload attempt).isSome = true then 1 else 0 := by
  obtain ⟨goesOn, loses⟩ := fails
  by_cases stored : (storedRow server payload attempt).isSome = true
  · simp only [storing, goesOn, stored, loses stored, Bool.false_eq_true, ↓reduceIte]
  · simp only [storing, goesOn, stored, Bool.false_eq_true, ↓reduceIte, add_zero]

/-- An attempt that does not fail is the last one. -/
theorem storing_of_ends (later : List Attempt) (ends : ¬ Fails server payload attempt) :
    storing server payload (attempt :: later) =
      if (storedRow server payload attempt).isSome = true then 1 else 0 := by
  by_cases stored : (storedRow server payload attempt).isSome = true
  · have goesOn := skips_of_stored stored
    have kept : ¬ Loses attempt := fun loses => ends ⟨goesOn, fun _ => loses⟩
    simp only [storing, goesOn, stored, kept, Bool.false_eq_true, ↓reduceIte]
  · have skipped : skips server payload attempt = true := by
      by_contra goesOn
      exact ends ⟨by simpa using goesOn, fun impossible => absurd impossible stored⟩
    simp only [storing, skipped, stored, Bool.false_eq_true, ↓reduceIte]

/-- A run stores a row when an attempt does so and all before it fail. -/
theorem storing_pos_iff : 0 < storing server payload attempts ↔
    ∃ front first back, attempts = front ++ first :: back ∧
      (∀ attempt ∈ front, Fails server payload attempt) ∧
      (storedRow server payload first).isSome = true := by
  induction attempts with
  | nil => simp [storing]
  | cons attempt later ih =>
      refine ⟨?_, ?_⟩
      · intro positive
        by_cases stored : (storedRow server payload attempt).isSome = true
        · exact ⟨[], attempt, later, rfl, fun _ member => absurd member List.not_mem_nil, stored⟩
        by_cases fails : Fails server payload attempt
        · rw [storing_of_fails later fails, if_neg stored] at positive
          obtain ⟨front, first, back, rfl, allFail, storedFirst⟩ := ih.mp positive
          exact ⟨attempt :: front, first, back, rfl, List.forall_mem_cons.mpr ⟨fails, allFail⟩,
            storedFirst⟩
        · rw [storing_of_ends later fails, if_neg stored] at positive
          exact absurd positive (Nat.lt_irrefl 0)
      · intro conditions
        obtain ⟨front, first, back, split, allFail, stored⟩ := conditions
        by_cases fails : Fails server payload attempt
        · rw [storing_of_fails later fails]
          cases front with
          | nil =>
              obtain ⟨rfl, rfl⟩ := List.cons_eq_cons.mp split
              rw [if_pos stored]
              exact Nat.succ_pos _
          | cons other front =>
              obtain ⟨rfl, rfl⟩ := List.cons_eq_cons.mp split
              have positive := ih.mpr ⟨front, first, back, rfl,
                (List.forall_mem_cons.mp allFail).2, stored⟩
              omega
        · rw [storing_of_ends later fails]
          cases front with
          | nil =>
              obtain ⟨rfl, rfl⟩ := List.cons_eq_cons.mp split
              rw [if_pos stored]
              exact Nat.one_pos
          | cons other front =>
              obtain ⟨rfl, rfl⟩ := List.cons_eq_cons.mp split
              exact absurd (List.forall_mem_cons.mp allFail).1 fails

theorem two_le_storing_iff : 2 ≤ storing server payload attempts ↔
    StoresTwice server payload attempts := by
  induction attempts with
  | nil => simp [storing, StoresTwice]
  | cons attempt later ih =>
      by_cases fails : Fails server payload attempt
      · rw [storing_of_fails later fails]
        refine ⟨?_, ?_⟩
        · intro two
          by_cases stored : (storedRow server payload attempt).isSome = true
          · rw [if_pos stored] at two
            obtain ⟨middle, second, back, rfl, allFail, storedSecond⟩ :=
              storing_pos_iff.mp (by omega : 0 < storing server payload later)
            exact ⟨[], attempt, middle, second, back, rfl,
              fun _ member => absurd member List.not_mem_nil, stored, fails.2 stored, allFail,
              storedSecond⟩
          · rw [if_neg stored] at two
            obtain ⟨front, first, middle, second, back, rfl, allFail, rest⟩ := ih.mp two
            exact ⟨attempt :: front, first, middle, second, back, rfl,
              List.forall_mem_cons.mpr ⟨fails, allFail⟩, rest⟩
        · intro conditions
          obtain ⟨front, first, middle, second, back, split, allFail, stored, loses, rest⟩ :=
            conditions
          cases front with
          | nil =>
              obtain ⟨rfl, rfl⟩ := List.cons_eq_cons.mp split
              rw [if_pos stored]
              have positive := storing_pos_iff.mpr ⟨middle, second, back, rfl, rest⟩
              omega
          | cons other front =>
              obtain ⟨rfl, rfl⟩ := List.cons_eq_cons.mp split
              have two := ih.mpr ⟨front, first, middle, second, back, rfl,
                (List.forall_mem_cons.mp allFail).2, stored, loses, rest⟩
              omega
      · rw [storing_of_ends later fails]
        refine ⟨?_, ?_⟩
        · intro two
          split at two <;> omega
        · intro conditions
          obtain ⟨front, first, middle, second, back, split, allFail, stored, loses, rest⟩ :=
            conditions
          cases front with
          | nil =>
              obtain ⟨rfl, rfl⟩ := List.cons_eq_cons.mp split
              exact absurd ⟨skips_of_stored stored, fun _ => loses⟩ fails
          | cons other front =>
              obtain ⟨rfl, rfl⟩ := List.cons_eq_cons.mp split
              exact absurd (List.forall_mem_cons.mp allFail).1 fails

/-! ## At most one receipt -/

/-- One row or none is added, and the summaries count nothing else in. -/
def AddsAtMostOne (before after : World) : Prop :=
  ∃ added, added.length ≤ 1 ∧ after.db.transactions = before.db.transactions ++ added ∧
    ∀ reader query, SummaryAdds added ((getSummary reader query).run before.db).1
      ((getSummary reader query).run after.db).1

/-- A run adds one row at most exactly when it does not store a row again after a failure that
struck behind the first one. -/
theorem runAttempts_addsAtMostOne_iff (fresh : FreshIds attempts world) :
    AddsAtMostOne world (runAttempts server payload attempts world) ↔
      ¬ StoresTwice server payload attempts := by
  obtain ⟨rows, count, added⟩ := @runAttempts_rows server payload world attempts fresh
  rw [← two_le_storing_iff, ← count]
  refine ⟨?_, ?_⟩
  · intro conditions
    obtain ⟨others, single, added', -⟩ := conditions
    rw [added, List.append_cancel_left_eq] at added'
    rw [added']
    omega
  · intro notTwo
    exact ⟨rows, by omega, added, fun reader query => summaryAdds_of_append reader query added⟩

/-- The reply of `create` is lost. -/
def lostReply : Call → Option Fault := fun call => if call = .create then some .after else none

/-- A lost reply of `create`, and an undisturbed second attempt. -/
def lostReplyRun : List Attempt :=
  [sampleAttempt "first" lostReply, sampleAttempt "second" noFaults]

def emptyWorld : World := ⟨.empty, []⟩

theorem freshIds_lostReplyRun : FreshIds lostReplyRun emptyWorld :=
  ⟨by decide, fun _ _ => List.not_mem_nil⟩

/-- The run after a lost reply meets the condition exactly when it adds one row at most. -/
theorem lostReplyRun_addsAtMostOne_iff :
    AddsAtMostOne emptyWorld (runAttempts sampleServer samplePayload lostReplyRun emptyWorld) ↔
      ¬ StoresTwice sampleServer samplePayload lostReplyRun :=
  runAttempts_addsAtMostOne_iff freshIds_lostReplyRun

/-- After a lost reply the receipt is stored a second time, within the configured attempts. -/
theorem lostReplyRun_not_addsAtMostOne :
    lostReplyRun.length ≤ DEFAULT_JOB_ATTEMPTS ∧
      ¬ AddsAtMostOne emptyWorld
        (runAttempts sampleServer samplePayload lostReplyRun emptyWorld) := by
  refine ⟨by decide, ?_⟩
  intro conditions
  obtain ⟨others, single, added, -⟩ := conditions
  obtain ⟨rows, count, added'⟩ :=
    @runAttempts_rows sampleServer samplePayload emptyWorld lostReplyRun freshIds_lostReplyRun
  have two : storing sampleServer samplePayload lostReplyRun = 2 := by decide +kernel
  rw [added', List.append_cancel_left_eq] at added
  rw [two, added] at count
  omega

end BirrTrack.Processing
