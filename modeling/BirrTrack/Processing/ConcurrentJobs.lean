import BirrTrack.Foundation.EventMachine
import BirrTrack.Processing.Retries

/-! # Image jobs side by side

The worker runs two jobs at once, and a job's lookup and its insert are separate statements.
Any number of jobs take these two steps in any order. As long as no job inserts a receipt that
another one has inserted since its lookup, no key gets a second row without the flag.
-/

namespace BirrTrack.Processing

open Js Transactions

/-- What a job looks up and then creates. -/
structure RecordingJob where
  receipt : CreateTransactionDto
  generated : Generated

/-- How far a job has come. -/
inductive JobPhase where
  | waiting
  | looked (found : Bool)
  | done
  deriving DecidableEq

inductive JobEvent (ι : Type) where
  | look (job : ι)
  | insert (job : ι)

/-- The tables, and how far each job has come. -/
structure JobsState (ι : Type) where
  db : Db
  phase : ι → JobPhase

/-- The row of a job, apart from its flag. -/
def RecordingJob.row (reader : DateReader) (job : RecordingJob) : Option TransactionRow :=
  (job.receipt.toNew reader).toRow reader job.generated

/-- What the lookup of a job leads to; a lookup that fails ends the job. -/
def lookedUp (reader : DateReader) (job : RecordingJob) (db : Db) : JobPhase :=
  match ((findDuplicate reader job.receipt.transactionId job.receipt.amount
      job.receipt.timestamp).run db).1 with
  | .ok duplicate => .looked duplicate.isSome
  | .error _ => .done

/-- The tables after the insert of a job. -/
def inserted (reader : DateReader) (job : RecordingJob) (found : Bool) (db : Db) : Db :=
  ((create reader job.generated { job.receipt with isDuplicate := found }).run db).2

section Machine

variable {ι : Type} [DecidableEq ι]

def jobMachine (reader : DateReader) (jobs : ι → RecordingJob) :
    EventMachine (JobsState ι) (JobEvent ι) where
  step state
    | .look job =>
        if state.phase job = .waiting then
          some { state with
            phase := Function.update state.phase job (lookedUp reader (jobs job) state.db) }
        else none
    | .insert job =>
        match state.phase job with
        | .looked found =>
            some {
              db := inserted reader (jobs job) found state.db
              phase := Function.update state.phase job .done }
        | _ => none

/-- No key has two rows without the flag. -/
def OneOriginal (db : Db) : Prop :=
  ∀ key, (db.transactions.filter fun row => row.key = key ∧ row.isDuplicate = false).length ≤ 1

/-- No row with the key of the job has come in since a lookup that found none, if the insert is
going to succeed. A number that the column cuts is not found by its lookup; then no row with the key
is without the flag. -/
def NotOvertaken (reader : DateReader) (jobs : ι → RecordingJob) (state : JobsState ι) :
    JobEvent ι → Prop
  | .look _ => True
  | .insert job => state.phase job = .looked false →
      ∀ row, (jobs job).row reader = some row →
        row.id ∉ state.db.transactions.map TransactionRow.id →
          ∀ earlier ∈ state.db.transactions, earlier.key = row.key →
            128 < (jobs job).receipt.transactionId.length ∧ earlier.isDuplicate = true

/-- What earlier steps left behind: a job that found a row still has one in the table, and where
a job that found none has one there now, one of these is without the flag. -/
structure Tracked (reader : DateReader) (jobs : ι → RecordingJob) (state : JobsState ι) : Prop where
  found : ∀ job key, state.phase job = .looked true → (jobs job).receipt.key reader = some key →
    ∃ row ∈ state.db.transactions, row.key = key
  missed : ∀ job key, state.phase job = .looked false → (jobs job).receipt.key reader = some key →
    (∃ row ∈ state.db.transactions, row.key = key) →
      ∃ row ∈ state.db.transactions, row.key = key ∧ row.isDuplicate = false

end Machine

/-! ## The two steps of a job -/

variable {reader : DateReader} {job : RecordingJob} {db : Db} {row : TransactionRow}

/-- A lookup finds the key of the job. -/
theorem lookedUp_of_key {key : TransactionKey} (known : job.receipt.key reader = some key) :
    lookedUp reader job db = .looked (db.transactions.any fun row => row.key = key) := by
  rw [lookedUp, findDuplicate_of_key known]
  simp only [isSome_find?]

/-- An insert adds the row of the job, flagged as the lookup said, or it fails. -/
theorem inserted_cases (reader : DateReader) (job : RecordingJob) (found : Bool) (db : Db) :
    (∃ row, job.row reader = some row ∧ row.id ∉ db.transactions.map TransactionRow.id ∧
      (inserted reader job found db).transactions =
        db.transactions ++ [{ row with isDuplicate := found }]) ∨
    ((∀ row, job.row reader = some row → row.id ∈ db.transactions.map TransactionRow.id) ∧
      inserted reader job found db = db) := by
  rcases ran : (create reader job.generated { job.receipt with isDuplicate := found }).run db with
    ⟨result, after⟩
  have reached : inserted reader job found db = after := congrArg Prod.snd ran
  rw [reached]
  cases result with
  | ok saved =>
      obtain ⟨row, stored, insertion, -⟩ := create_eq_ok.mp ran
      obtain ⟨fresh, rows, -⟩ := Db.insert_eq_some.mp insertion
      refine Or.inl ⟨{ row with isDuplicate := job.receipt.isDuplicate },
        toRow_flag stored job.receipt.isDuplicate, fresh, ?_⟩
      have flag : row.isDuplicate = found := (toRow_eq_some.mp stored).1.2.2.1
      rw [rows, ← flag]
  | error failure =>
      refine Or.inr ⟨?_, create_error ran⟩
      intro row stored
      by_contra fresh
      obtain ⟨db', insertion⟩ : ∃ db', db.insert { row with isDuplicate := found } = some db' :=
        ⟨_, dif_pos fresh⟩
      have created := create_eq_ok.mpr ⟨_, toRow_flag stored found, insertion, rfl⟩
      cases ran.symm.trans created

/-- A new row keeps the keys apart exactly if it is flagged or no row without the flag has its
key. -/
theorem oneOriginal_append {after : Db} (original : OneOriginal db)
    (rows : after.transactions = db.transactions ++ [row]) :
    OneOriginal after ↔ (row.isDuplicate = false →
      ∀ earlier ∈ db.transactions, earlier.key = row.key → earlier.isDuplicate = true) := by
  have count : ∀ key, (after.transactions.filter fun row =>
      row.key = key ∧ row.isDuplicate = false).length =
        (db.transactions.filter fun row => row.key = key ∧ row.isDuplicate = false).length +
          if row.key = key ∧ row.isDuplicate = false then 1 else 0 := by
    intro key
    rw [rows, List.filter_append, List.length_append]
    congr 1
    by_cases counts : row.key = key ∧ row.isDuplicate = false
    · simp only [List.filter_cons, counts, and_self, decide_true, ↓reduceIte, List.filter_nil,
        List.length_singleton]
    · simp only [List.filter_cons, counts, decide_false, Bool.false_eq_true, ↓reduceIte,
        List.filter_nil, List.length_nil]
  refine ⟨?_, ?_⟩
  · intro originals unflagged earlier member same
    by_contra unflagged'
    have two := originals row.key
    rw [count, if_pos ⟨rfl, unflagged⟩] at two
    have none : (db.transactions.filter fun other =>
        other.key = row.key ∧ other.isDuplicate = false) = [] :=
      List.eq_nil_of_length_eq_zero (by omega)
    have present : earlier ∈ db.transactions.filter fun other =>
        other.key = row.key ∧ other.isDuplicate = false :=
      List.mem_filter.mpr ⟨member, decide_eq_true ⟨same, by simpa using unflagged'⟩⟩
    rw [none] at present
    exact List.not_mem_nil present
  · intro apart key
    rw [count]
    by_cases counts : row.key = key ∧ row.isDuplicate = false
    · have none : (db.transactions.filter fun other =>
          other.key = key ∧ other.isDuplicate = false) = [] := by
        rw [List.filter_eq_nil_iff]
        intro earlier member both
        rw [decide_eq_true_eq] at both
        have flagged := apart counts.2 earlier member (both.1.trans counts.1.symm)
        rw [both.2] at flagged
        cases flagged
      rw [if_pos counts, none]
      exact Nat.le_refl 1
    · rw [if_neg counts]
      exact original key

section Runs

variable {ι : Type} [DecidableEq ι] {jobs : ι → RecordingJob} {state next : JobsState ι}

theorem jobMachine_look {job : ι}
    (step : (jobMachine reader jobs).step state (.look job) = some next) :
    next = { state with
      phase := Function.update state.phase job (lookedUp reader (jobs job) state.db) } := by
  simp only [jobMachine] at step
  split at step
  next => exact (Option.some.inj step).symm
  next => cases step

theorem jobMachine_insert {job : ι}
    (step : (jobMachine reader jobs).step state (.insert job) = some next) :
    ∃ found, state.phase job = .looked found ∧ next = {
      db := inserted reader (jobs job) found state.db
      phase := Function.update state.phase job .done } := by
  simp only [jobMachine] at step
  split at step
  next found phase => exact ⟨found, phase, (Option.some.inj step).symm⟩
  next => cases step

/-- The row of a job has the key that its lookup asked for, but for the blanks cut off. -/
theorem key_of_row (stored : job.row reader = some row) :
    job.receipt.key reader = some (row.keyWith job.receipt.transactionId) := key_of_toRow stored

/-- A lookup remembers what the table holds. -/
theorem tracked_look {job : ι} (tracked : Tracked reader jobs state) :
    Tracked reader jobs { state with
      phase := Function.update state.phase job (lookedUp reader (jobs job) state.db) } where
  found other key phase known := by
    by_cases same : other = job
    · subst same
      simp only [Function.update_self, lookedUp_of_key known, JobPhase.looked.injEq,
        List.any_eq_true, decide_eq_true_eq] at phase
      exact phase
    · simp only [Function.update_of_ne same] at phase
      exact tracked.found other key phase known
  missed other key phase known present := by
    by_cases same : other = job
    · subst same
      simp only [Function.update_self, lookedUp_of_key known, JobPhase.looked.injEq,
        List.any_eq_false, decide_eq_true_eq] at phase
      obtain ⟨row, member, keyEq⟩ := present
      exact absurd keyEq (phase row member)
    · simp only [Function.update_of_ne same] at phase
      exact tracked.missed other key phase known present

/-- A job that is done has looked nothing up. -/
theorem looked_of_update {job other : ι} {flag : Bool}
    (phase : Function.update state.phase job .done other = .looked flag) :
    state.phase other = .looked flag := by
  by_cases same : other = job
  · subst same
    rw [Function.update_self] at phase
    cases phase
  · rwa [Function.update_of_ne same] at phase

/-- The first row with a key is an original, as the lookup of its job found none. -/
theorem tracked_insert {job : ι} {found : Bool} (tracked : Tracked reader jobs state)
    (phaseJob : state.phase job = .looked found) :
    Tracked reader jobs {
      db := inserted reader (jobs job) found state.db
      phase := Function.update state.phase job .done } := by
  rcases inserted_cases reader (jobs job) found state.db with
    ⟨row, stored, -, rows⟩ | ⟨-, unchanged⟩
  · constructor
    · intro other key phase known
      obtain ⟨earlier, member, keyEq⟩ := tracked.found other key (looked_of_update phase) known
      exact ⟨earlier, by rw [rows]; exact List.mem_append_left _ member, keyEq⟩
    · intro other key phase known present
      rw [rows] at present ⊢
      by_cases before : ∃ earlier ∈ state.db.transactions, earlier.key = key
      · obtain ⟨earlier, member, both⟩ :=
          tracked.missed other key (looked_of_update phase) known before
        exact ⟨earlier, List.mem_append_left _ member, both⟩
      · obtain ⟨newest, member, keyEq⟩ := present
        rcases List.mem_append.mp member with earlier | last
        · exact absurd ⟨newest, earlier, keyEq⟩ before
        · rw [List.mem_singleton] at last
          subst last
          have unflagged : found = false := by
            by_contra flagged
            rw [Bool.not_eq_false] at flagged
            subst flagged
            obtain ⟨earlier, member, asked⟩ := tracked.found job _ phaseJob (key_of_row stored)
            have same := keyWith_eq_key_of_found stored asked
            exact before ⟨earlier, member, (asked.trans same).trans keyEq⟩
          exact ⟨_, List.mem_append_right _ (List.mem_singleton.mpr rfl), keyEq, unflagged⟩
  · rw [unchanged]
    exact ⟨fun other key phase => tracked.found other key (looked_of_update phase),
      fun other key phase => tracked.missed other key (looked_of_update phase)⟩

/-- Every step keeps track. -/
theorem tracked_step {event : JobEvent ι} (tracked : Tracked reader jobs state)
    (step : (jobMachine reader jobs).step state event = some next) : Tracked reader jobs next := by
  cases event with
  | look job =>
      rw [jobMachine_look step]
      exact tracked_look tracked
  | insert job =>
      obtain ⟨found, phaseJob, rfl⟩ := jobMachine_insert step
      exact tracked_insert tracked phaseJob

/-- From tracked states a step keeps the keys apart exactly if it is not overtaken. -/
theorem jobMachine_decides {event : JobEvent ι} (tracked : Tracked reader jobs state)
    (original : OneOriginal state.db)
    (step : (jobMachine reader jobs).step state event = some next) :
    OneOriginal next.db ↔ NotOvertaken reader jobs state event := by
  cases event with
  | look job =>
      rw [jobMachine_look step]
      exact iff_of_true original trivial
  | insert job =>
      obtain ⟨found, phase, rfl⟩ := jobMachine_insert step
      rcases inserted_cases reader (jobs job) found state.db with
        ⟨row, stored, fresh, rows⟩ | ⟨taken, unchanged⟩
      · rw [oneOriginal_append original rows]
        refine ⟨?_, ?_⟩
        · intro apart missed row' stored' _ earlier member same
          rw [phase, JobPhase.looked.injEq] at missed
          cases stored.symm.trans stored'
          refine ⟨?_, apart missed earlier member same⟩
          by_contra short
          have known := key_of_row stored
          rw [(keyWith_eq_key_iff stored).mpr (not_lt.mp short)] at known
          obtain ⟨first, member', keyEq, unflagged⟩ := tracked.missed job row.key
            (phase.trans (congrArg JobPhase.looked missed)) known ⟨earlier, member, same⟩
          have flagged := apart missed first member' keyEq
          rw [unflagged] at flagged
          cases flagged
        · intro alone unflagged earlier member same
          have missed : found = false := unflagged
          rw [missed] at phase
          exact (alone phase row stored fresh earlier member same).2
      · rw [unchanged]
        refine iff_of_true original ?_
        intro _ row stored fresh
        exact absurd (taken row stored) fresh

/-- From a store without two rows of one key that lack the flag, a run of any jobs in any order
reaches only such stores exactly when no insert in it is overtaken. -/
theorem jobs_oneOriginal_iff (reader : DateReader) (jobs : ι → RecordingJob) (db : Db)
    (original : OneOriginal db) (events : List (JobEvent ι)) :
    (jobMachine reader jobs).Always (fun state => OneOriginal state.db) ⟨db, fun _ => .waiting⟩
        events ↔
      (jobMachine reader jobs).EachStep
        (fun state event _ => NotOvertaken reader jobs state event) ⟨db, fun _ => .waiting⟩
        events := by
  have past : Tracked reader jobs ⟨db, fun _ => .waiting⟩ :=
    ⟨fun _ _ waiting => (nomatch waiting), fun _ _ waiting => (nomatch waiting)⟩
  exact EventMachine.always_iff (fun _ _ _ tracked step => tracked_step tracked step)
    (fun _ _ _ tracked original step => jobMachine_decides tracked original step) past original

end Runs

/-- The two steps one after the other are what an undisturbed job does to the tables. -/
theorem recordReceipt_db {server : Server} {attempt : Attempt} {receipt : CreateTransactionDto}
    (looks : attempt.faults .findDuplicate = none) (creates : attempt.faults .create = none)
    (world : World) :
    ((recordReceipt server attempt receipt).run world).2.db =
      match lookedUp server.reader ⟨receipt, attempt.generated⟩ world.db with
      | .looked found => inserted server.reader ⟨receipt, attempt.generated⟩ found world.db
      | _ => world.db := by
  have emits : ∀ (payload : TransactionResponse) (world : World),
      ((disturbed (attempt.faults .emit) (emitTransactionNew payload)).run world).2.db =
        world.db := by
    intro payload world
    cases attempt.faults .emit with
    | none => rfl
    | some moment =>
        cases moment with
        | before => rfl
        | after => rfl
  have undisturbed : ∀ {α : Type} (procedure : Procedure World Failure α),
      disturbed none procedure = procedure := fun _ => rfl
  rw [recordReceipt, looks, creates, undisturbed, lookedUp]
  rcases looked : (findDuplicate server.reader receipt.transactionId receipt.amount
    receipt.timestamp).run world.db with ⟨answer, same⟩
  have unchanged : same = world.db := (congrArg Prod.snd looked).symm
  subst unchanged
  have looked' : (inDb (findDuplicate server.reader receipt.transactionId receipt.amount
      receipt.timestamp)).run world = (answer, world) := by
    rw [inDb, Procedure.run_within, looked]
  cases answer with
  | error failure => rw [Procedure.run_bind_error looked']
  | ok duplicate =>
      rw [Procedure.run_bind_ok looked', undisturbed]
      rcases created : (create server.reader attempt.generated
        { receipt with isDuplicate := duplicate.isSome }).run world.db with ⟨result, reached⟩
      have created' : (inDb (create server.reader attempt.generated
          { receipt with isDuplicate := duplicate.isSome })).run world =
            (result, { world with db := reached }) := by
        rw [inDb, Procedure.run_within, created]
      cases result with
      | error failure =>
          rw [Procedure.run_bind_error created']
          exact (congrArg Prod.snd created).symm
      | ok saved =>
          rw [Procedure.run_bind_ok created', emits]
          exact (congrArg Prod.snd created).symm

/-! ## Two jobs for one receipt -/

theorem finite_regexConfidence : (Number.ofRat (92 / 100)).isSome = true := by decide +kernel

def sampleReceipt : CreateTransactionDto where
  telegramUserId := "42"
  telegramName := "Abebe"
  amount := numberLiteral 50 (by decide +kernel)
  transactionId := "A12345"
  timestamp := "2026-04-08T00:00:00.000Z"
  bankName := "CBE"
  confidence := numberLiteral (92 / 100) finite_regexConfidence
  isDuplicate := false
  imageUrl := .undefined

def sampleKey : TransactionKey := ⟨"A12345", 5000, sampleInstant⟩

def twoJobs : Fin 2 → RecordingJob
  | 0 => ⟨sampleReceipt, ⟨"first", sampleInstant⟩⟩
  | 1 => ⟨sampleReceipt, ⟨"second", sampleInstant⟩⟩

/-- Both jobs look before either inserts. -/
def overlap : List (JobEvent (Fin 2)) := [.look 0, .look 1, .insert 0, .insert 1]

theorem oneOriginal_empty : OneOriginal .empty := fun _ => Nat.zero_le 1

/-- The overlapping run keeps the keys apart exactly if no insert in it is overtaken. -/
theorem overlap_oneOriginal_iff :
    (jobMachine utcReader twoJobs).Always (fun state => OneOriginal state.db)
        ⟨.empty, fun _ => .waiting⟩ overlap ↔
      (jobMachine utcReader twoJobs).EachStep
        (fun state event _ => NotOvertaken utcReader twoJobs state event)
        ⟨.empty, fun _ => .waiting⟩ overlap :=
  jobs_oneOriginal_iff utcReader twoJobs .empty oneOriginal_empty overlap

/-- Both rows of the overlapping run lack the flag. -/
theorem overlap_not_oneOriginal :
    ¬ (jobMachine utcReader twoJobs).Always (fun state => OneOriginal state.db)
      ⟨.empty, fun _ => .waiting⟩ overlap := by
  intro always
  have two : ((jobMachine utcReader twoJobs).run ⟨.empty, fun _ => .waiting⟩ overlap).map
      (fun state => (state.db.transactions.filter fun row =>
        row.key = sampleKey ∧ row.isDuplicate = false).length) = some 2 := by decide +kernel
  obtain ⟨state, reached, two⟩ := Option.map_eq_some_iff.mp two
  have one := always overlap (List.prefix_refl overlap) state reached sampleKey
  omega

end BirrTrack.Processing
