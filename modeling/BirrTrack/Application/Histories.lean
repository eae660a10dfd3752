import BirrTrack.Application.Steps

/-! # What a run never takes back

Rows, log rows, events and replies are only ever added, and the columns that say whose a row is
keep their values, whatever requests, jobs and restarts follow one another.
-/

namespace BirrTrack.Application

open Processing Transactions Telegram

/-- One system continues another: everything recorded is still there, in its place. -/
structure Extends (before after : System) : Prop where
  rows : before.world.db.transactions.map TransactionRow.origin <+:
    after.world.db.transactions.map TransactionRow.origin
  editLogs : before.world.db.editLogs <+: after.world.db.editLogs
  events : before.world.events <+: after.world.events
  replies : before.replies <+: after.replies

theorem Extends.refl (system : System) : Extends system system :=
  ⟨List.prefix_refl _, List.prefix_refl _, List.prefix_refl _, List.prefix_refl _⟩

theorem Extends.trans {first second third : System} (earlier : Extends first second)
    (later : Extends second third) : Extends first third where
  rows := earlier.rows.trans later.rows
  editLogs := earlier.editLogs.trans later.editLogs
  events := earlier.events.trans later.events
  replies := earlier.replies.trans later.replies

/-- A row of the table before has its origin in the table after. -/
theorem Extends.origin {before after : System} (extended : Extends before after)
    {row : TransactionRow} (member : row ∈ before.world.db.transactions) :
    ∃ later ∈ after.world.db.transactions, later.origin = row.origin :=
  List.mem_map.mp (extended.rows.subset (List.mem_map_of_mem member))

/-- A row that could be found can still be found. -/
theorem Extends.find {before after : System} (extended : Extends before after) {id : String}
    (found : ∃ row, before.world.db.find id = some row) :
    ∃ row, after.world.db.find id = some row := by
  obtain ⟨row, found⟩ := found
  obtain ⟨member, rfl⟩ := Db.find_eq_some.mp found
  obtain ⟨later, present, same⟩ := extended.origin member
  exact ⟨later, Db.find_eq_some.mpr ⟨present, congrArg Origin.id same⟩⟩

section Steps

variable {settings : Settings} {system next : System} {event : SystemEvent}

/-- A settled job has the data it had, and no attempt. -/
theorem settle_spec {job settled : QueueJob} (settles : job.settle = some settled) :
    settled.data = job.data ∧ settled.status.isActive = false := by
  unfold QueueJob.settle at settles
  split at settles
  next =>
    cases settles
    exact ⟨rfl, rfl⟩
  next =>
    cases settles
    refine ⟨rfl, ?_⟩
    simp only
    split <;> rfl
  next => cases settles

@[simp] theorem stall_data (limit : ℕ) (job : QueueJob) : (job.stall limit).data = job.data := by
  unfold QueueJob.stall
  split
  next => rfl
  next => rfl

/-- After a restart no job is active. -/
theorem stall_isActive (limit : ℕ) (job : QueueJob) :
    (job.stall limit).status.isActive = false := by
  unfold QueueJob.stall
  split
  next =>
    simp only
    split <;> rfl
  next inactive =>
    cases status : job.status with
    | active attempt activity => exact absurd status (inactive attempt activity)
    | _ => rfl

/-- A new row leaves the others as they are. -/
theorem prefix_of_insert {db after : Db} {row : TransactionRow}
    (inserts : db.insert row = some after) :
    db.transactions <+: after.transactions ∧ db.editLogs <+: after.editLogs := by
  obtain ⟨-, rows, logs⟩ := Db.insert_eq_some.mp inserts
  rw [rows, logs]
  exact ⟨List.prefix_append _ _, List.prefix_refl _⟩

/-- A call only adds rows, log rows and events. -/
theorem isPrefix_of_called {server : Server} {attempt : Attempt} {world after : World}
    {pending : Pending} {activity : Activity}
    (calls : Called server attempt world pending activity after) :
    world.db.transactions <+: after.db.transactions ∧ world.db.editLogs <+: after.db.editLogs ∧
      world.events <+: after.events := by
  have same : world.db.transactions <+: world.db.transactions ∧
      world.db.editLogs <+: world.db.editLogs ∧ world.events <+: world.events :=
    ⟨List.prefix_refl _, List.prefix_refl _, List.prefix_refl _⟩
  cases calls with
  | looked => exact same
  | stored converts inserts =>
      obtain ⟨rows, logs⟩ := prefix_of_insert inserts
      exact ⟨rows, logs, same.2.2⟩
  | emitted => exact ⟨same.1, same.2.1, List.prefix_append _ _⟩
  | failed => exact same

/-- Only a commit changes a row that is in the table. -/
theorem rows_of_moves (moves : Moves settings system event next)
    (uncommitted : ∀ edit, event ≠ .commit edit) :
    system.world.db.transactions <+: next.world.db.transactions := by
  cases moves with
  | called found active calls => exact (isPrefix_of_called calls).1
  | posted converts inserts => exact (prefix_of_insert inserts).1
  | committed => exact absurd rfl (uncommitted _)
  | uncommitted => exact absurd rfl (uncommitted _)
  | _ => exact List.prefix_refl _

/-- So does every step. -/
theorem extends_of_moves (moves : Moves settings system event next) : Extends system next := by
  have same := Extends.refl system
  cases moves with
  | replied longer => exact { same with replies := longer }
  | called found active calls =>
      obtain ⟨rows, logs, events⟩ := isPrefix_of_called calls
      exact { same with rows := rows.map _, editLogs := logs, events := events }
  | posted converts inserts =>
      obtain ⟨rows, logs⟩ := prefix_of_insert inserts
      exact { same with rows := rows.map _, editLogs := logs }
  | committed found writes =>
      refine { same with rows := ?_, editLogs := ?_ }
      · rw [writes.rows, Db.map_origin_updateRows]
      · rw [writes.appended]
        exact List.prefix_append _ _
  | _ => exact { same with }

/-- Every open edit is of a row that is stored. -/
theorem editsKnown_of_moves (known : EditsKnown system) (moves : Moves settings system event next) :
    EditsKnown next := by
  have extended := extends_of_moves moves
  have kept : ∀ edit ∈ system.edits, ∃ row, next.world.db.find edit.existing.id = some row :=
    fun edit member => extended.find (known edit member)
  cases moves with
  | restarted => exact fun edit member => absurd member List.not_mem_nil
  | opened found =>
      intro edit member
      rcases List.mem_append.mp member with earlier | last
      · exact kept edit earlier
      · rw [List.mem_singleton] at last
        subst last
        have sameId := (Db.find_eq_some.mp found).2
        exact ⟨_, sameId.symm ▸ found⟩
  | committed found writes => exact fun edit member => kept edit (List.mem_of_mem_eraseIdx member)
  | uncommitted found => exact fun edit member => kept edit (List.mem_of_mem_eraseIdx member)
  | _ => exact kept

theorem editsKnown_step (known : EditsKnown system)
    (step : (application settings).step system event = some next) : EditsKnown next :=
  editsKnown_of_moves known (moves_of_step known step)

theorem editsKnown_initial : EditsKnown .initial := fun _ member => absurd member List.not_mem_nil

/-- The open edits of a reachable system are of rows in the table. -/
theorem editsKnown_run {events : List SystemEvent}
    (ran : (application settings).run .initial events = some system) : EditsKnown system :=
  EventMachine.run_invariant (fun _ _ _ known step => editsKnown_step known step)
    editsKnown_initial ran

end Steps

/-- Whatever follows a reachable system continues it; and as long as no PATCH request commits,
the rows themselves stay as they are. -/
theorem run_extends (settings : Settings) {past events : List SystemEvent} {before after : System}
    (reached : (application settings).run .initial past = some before)
    (ran : (application settings).run before events = some after) :
    Extends before after ∧ ((∀ edit, .commit edit ∉ events) →
      before.world.db.transactions <+: after.world.db.transactions) := by
  have known := editsKnown_run reached
  refine ⟨?_, ?_⟩
  · exact EventMachine.run_related Extends.refl (fun _ _ _ => Extends.trans)
      (fun _ _ _ known step => editsKnown_step known step)
      (fun _ _ _ known step => extends_of_moves (moves_of_step known step)) known ran
  · refine (EventMachine.run_history (fun past system => EditsKnown system ∧
      ((∀ edit, .commit edit ∉ past) →
        before.world.db.transactions <+: system.world.db.transactions))
      ⟨known, fun _ => List.prefix_refl _⟩ ?_ ran).2
    intro past system event next good step
    obtain ⟨known, kept⟩ := good
    refine ⟨editsKnown_step known step, ?_⟩
    intro uncommitted
    have earlier := kept fun edit member => uncommitted edit (List.mem_append_left _ member)
    refine earlier.trans (rows_of_moves (moves_of_step known step) ?_)
    rintro edit rfl
    exact uncommitted edit (List.mem_append_right _ (List.mem_singleton.mpr rfl))

/-! ## A sample run -/

def sampleSettings : Settings := ⟨sampleServer, none, 1⟩

/-- A photo is received, its row stored although the reply of `create` is lost, the job attempted
again, and the second row edited. -/
def sampleRun : List SystemEvent := [
  .webhook undisturbed "" (.message ⟨some sampleUser, .photo [samplePhoto]⟩),
  .begin 0 (sampleAttempt "first" lostReply), .advance 0, .advance 0, .settle 0,
  .begin 0 (sampleAttempt "second" noFaults), .advance 0, .advance 0, .advance 0, .settle 0,
  .read "second" { emptyDto with bankName := .value "Dashen" } none, .commit 0]

theorem run_sampleRun : ∃ system,
    (application sampleSettings).run .initial sampleRun = some system ∧
    system.world.db.transactions.length = 2 ∧ system.world.db.editLogs.length = 1 ∧
    system.world.events.length = 1 ∧ system.jobs.map QueueJob.attemptsMade = [2] := by
  have evaluated : ((application sampleSettings).run .initial sampleRun).any (fun system =>
      system.world.db.transactions.length = 2 ∧ system.world.db.editLogs.length = 1 ∧
      system.world.events.length = 1 ∧ system.jobs.map QueueJob.attemptsMade = [2]) = true := by
    decide +kernel
  obtain ⟨system, ran, counts⟩ := (Option.any_eq_true _ _).mp evaluated
  exact ⟨system, ran, of_decide_eq_true counts⟩

/-- The sample run takes nothing back. -/
theorem sampleRun_extends : ∃ system,
    (application sampleSettings).run .initial sampleRun = some system ∧
      Extends .initial system ∧ ((∀ edit, .commit edit ∉ sampleRun) →
        System.initial.world.db.transactions <+: system.world.db.transactions) := by
  obtain ⟨system, ran, -⟩ := run_sampleRun
  have start : (application sampleSettings).run .initial [] = some .initial := rfl
  exact ⟨system, ran, run_extends sampleSettings start ran⟩

end BirrTrack.Application
