import BirrTrack.Application.Contents

/-! # How much work there is, and that it ends

A job is attempted at most three times, and again for each time that the queue recovers it, so that
the worker takes a bounded number of steps for it and stores a bounded number of rows. While a job
is unfinished the worker has a step to take, and it never runs more than two jobs.
-/

namespace BirrTrack.Application

open Processing Transactions Telegram

/-! ## What is left to do for a job -/

/-- A step of the worker. -/
def SystemEvent.isWork : SystemEvent → Bool
  | begin _ _ | advance _ | settle _ => true
  | _ => false

/-- A step of the worker for the job at an index. -/
def SystemEvent.worksFor (index : ℕ) : SystemEvent → Bool
  | begin job _ | advance job | settle job => job = index
  | _ => false

/-- A step of the worker, in which only this attempt may begin. -/
def SystemEvent.WorksWith (attempt : Attempt) : SystemEvent → Prop
  | begin _ begun => begun = attempt
  | advance _ | settle _ => True
  | _ => False

def SystemEvent.isPost : SystemEvent → Bool
  | post _ _ => true
  | _ => false

namespace QueueJob

def finished (job : QueueJob) : Bool :=
  match job.status with
  | .completed | .failed => true
  | _ => false

/-- How often an unfinished job can still begin, the attempt under way included, when it may be
recovered that often. -/
def startsLeft (recoveries : ℕ) (job : QueueJob) : ℕ :=
  (DEFAULT_JOB_ATTEMPTS - job.attemptsMade) + (recoveries - job.stalledCounter)

/-- A job that is not finished has an attempt left. -/
def Bounded (job : QueueJob) : Prop :=
  job.finished = true ∨ job.attemptsMade < DEFAULT_JOB_ATTEMPTS

end QueueJob

/-- The steps that an attempt has still to take. -/
def Activity.stepsLeft : Activity → ℕ
  | calling (.findDuplicate _) => 4
  | calling (.create _) => 3
  | calling (.emit _) => 2
  | returned => 1
  | threw => 1

/-- The rows that an attempt may still store. -/
def Activity.rowsLeft : Activity → ℕ
  | calling (.findDuplicate _) => 1
  | calling (.create _) => 1
  | _ => 0

namespace QueueJob

/-- An attempt takes at most five steps. -/
def stepsLeft (recoveries : ℕ) (job : QueueJob) : ℕ :=
  match job.status with
  | .waiting => 5 * job.startsLeft recoveries
  | .active _ activity => 5 * (job.startsLeft recoveries - 1) + activity.stepsLeft
  | _ => 0

/-- An attempt stores at most one row. -/
def rowsLeft (recoveries : ℕ) (job : QueueJob) : ℕ :=
  match job.status with
  | .waiting => job.startsLeft recoveries
  | .active _ activity => job.startsLeft recoveries - 1 + activity.rowsLeft
  | _ => 0

/-- A step takes a job on, at the price of steps and rows that are left to it. -/
structure Spends (recoveries : ℕ) (before after : QueueJob) (steps rows : ℕ) : Prop where
  bounded : after.Bounded
  steps : after.stepsLeft recoveries + steps ≤ before.stepsLeft recoveries
  rows : after.rowsLeft recoveries + rows ≤ before.rowsLeft recoveries

end QueueJob

section Jobs

variable {job settled : QueueJob} {recoveries : ℕ}

theorem QueueJob.Bounded.running (bounded : job.Bounded) (unfinished : job.finished = false) :
    job.attemptsMade < DEFAULT_JOB_ATTEMPTS := by
  rcases bounded with finished | limit
  · rw [unfinished] at finished
    cases finished
  · exact limit

theorem bounded_added (data : ImageProcessingJobPayload) : (QueueJob.added data).Bounded :=
  Or.inr (Nat.zero_lt_succ _)

/-- Beginning an attempt spends one step. -/
theorem spends_begin {server : Server} {attempt : Attempt} (bounded : job.Bounded)
    (waiting : job.status = .waiting) :
    job.Spends recoveries (job.begin server attempt) 1 0 := by
  have attempts := bounded.running (by rw [QueueJob.finished, waiting])
  have positive : 0 < job.startsLeft recoveries := by
    simp only [QueueJob.startsLeft]
    omega
  refine ⟨Or.inr attempts, ?_, ?_⟩
  · rw [QueueJob.stepsLeft, QueueJob.stepsLeft, waiting]
    change 5 * (job.startsLeft recoveries - 1) + Activity.stepsLeft _ + 1 ≤
      5 * job.startsLeft recoveries
    split <;> simp only [Activity.stepsLeft] <;> omega
  · rw [QueueJob.rowsLeft, QueueJob.rowsLeft, waiting]
    change job.startsLeft recoveries - 1 + Activity.rowsLeft _ + 0 ≤ job.startsLeft recoveries
    split <;> simp only [Activity.rowsLeft] <;> omega

/-- A call is a step of its attempt. -/
theorem stepsLeft_called {server : Server} {attempt : Attempt} {world after : World}
    {pending : Pending} {activity : Activity}
    (calls : Called server attempt world pending activity after) :
    activity.stepsLeft + 1 ≤ (Activity.calling pending).stepsLeft := by
  cases calls with
  | looked receipt flag _ => exact Nat.le_refl 4
  | stored converts inserts reached => rcases reached with rfl | rfl <;> simp [Activity.stepsLeft]
  | emitted transaction reached => rcases reached with rfl | rfl <;> simp [Activity.stepsLeft]
  | failed => cases pending <;> simp [Activity.stepsLeft]

/-- A call stores a row if it adds one to the table, with the id that was generated for its
attempt. -/
theorem rowsLeft_called {server : Server} {attempt : Attempt} {world after : World}
    {pending : Pending} {activity : Activity}
    (calls : Called server attempt world pending activity after) :
    ∃ added, after.db.transactions = world.db.transactions ++ added ∧
      (∀ row ∈ added, row.id = attempt.generated.id) ∧
      activity.rowsLeft + added.length ≤ (Activity.calling pending).rowsLeft := by
  have nothing : world.db.transactions = world.db.transactions ++ [] :=
    (List.append_nil _).symm
  have noRow : ∀ row ∈ ([] : List TransactionRow), row.id = attempt.generated.id :=
    fun _ member => absurd member List.not_mem_nil
  cases calls with
  | looked receipt flag _ => exact ⟨[], nothing, noRow, Nat.le_refl 1⟩
  | stored converts inserts reached =>
      refine ⟨_, (Db.insert_eq_some.mp inserts).2.1, ?_, ?_⟩
      · intro row member
        rw [List.mem_singleton.mp member]
        exact (toRow_eq_some.mp converts).1.1
      · rcases reached with rfl | rfl <;> simp [Activity.rowsLeft]
  | emitted transaction reached =>
      refine ⟨[], nothing, noRow, ?_⟩
      rcases reached with rfl | rfl <;> simp [Activity.rowsLeft]
  | failed => exact ⟨[], nothing, noRow, by cases pending <;> simp [Activity.rowsLeft]⟩

/-- A call spends one step, and one row if it stores one. -/
theorem spends_called {server : Server} {attempt : Attempt} {world after : World}
    {pending : Pending} {activity : Activity} (bounded : job.Bounded)
    (active : job.status = .active attempt (.calling pending))
    (calls : Called server attempt world pending activity after) :
    ∃ added, after.db.transactions = world.db.transactions ++ added ∧
      (∀ row ∈ added, row.id = attempt.generated.id) ∧
      job.Spends recoveries { job with status := .active attempt activity } 1 added.length := by
  have attempts := bounded.running (by rw [QueueJob.finished, active])
  have fewerSteps := stepsLeft_called calls
  obtain ⟨added, rows, ids, fewerRows⟩ := rowsLeft_called calls
  refine ⟨added, rows, ids, Or.inr attempts, ?_, ?_⟩
  · rw [QueueJob.stepsLeft, QueueJob.stepsLeft, active]
    change 5 * (job.startsLeft recoveries - 1) + activity.stepsLeft + 1 ≤
      5 * (job.startsLeft recoveries - 1) + (Activity.calling pending).stepsLeft
    omega
  · rw [QueueJob.rowsLeft, QueueJob.rowsLeft, active]
    change job.startsLeft recoveries - 1 + activity.rowsLeft + added.length ≤
      job.startsLeft recoveries - 1 + (Activity.calling pending).rowsLeft
    omega

/-- Settling spends one step. -/
theorem spends_settle (bounded : job.Bounded) (settles : job.settle = some settled) :
    job.Spends recoveries settled 1 0 := by
  unfold QueueJob.settle at settles
  split at settles
  next attempt active =>
    cases settles
    refine ⟨Or.inl rfl, ?_, Nat.zero_le _⟩
    rw [QueueJob.stepsLeft, QueueJob.stepsLeft, active]
    simp only [Activity.stepsLeft]
    omega
  next attempt active =>
    cases settles
    have attempts := bounded.running (by rw [QueueJob.finished, active])
    by_cases again : job.attemptsMade + 1 < DEFAULT_JOB_ATTEMPTS
    · simp only [again, ↓reduceIte]
      refine ⟨Or.inr again, ?_, ?_⟩
      · rw [QueueJob.stepsLeft, QueueJob.stepsLeft, active]
        simp only [QueueJob.startsLeft, Activity.stepsLeft]
        omega
      · rw [QueueJob.rowsLeft, QueueJob.rowsLeft, active]
        simp only [QueueJob.startsLeft, Activity.rowsLeft]
        omega
    · simp only [again, ↓reduceIte]
      refine ⟨Or.inl rfl, ?_, Nat.zero_le _⟩
      rw [QueueJob.stepsLeft, QueueJob.stepsLeft, active]
      simp only [Activity.stepsLeft]
      omega
  next => cases settles

/-- A recovery is one of those that a job is allowed. -/
theorem spends_stall (bounded : job.Bounded) :
    job.Spends recoveries (job.stall recoveries) 0 0 := by
  unfold QueueJob.stall
  split
  next attempt activity active =>
    have attempts := bounded.running (by rw [QueueJob.finished, active])
    by_cases again : job.stalledCounter + 1 ≤ recoveries
    · simp only [again, ↓reduceIte]
      refine ⟨Or.inr attempts, ?_, ?_⟩
      · rw [QueueJob.stepsLeft, QueueJob.stepsLeft, active]
        simp only [QueueJob.startsLeft]
        omega
      · rw [QueueJob.rowsLeft, QueueJob.rowsLeft, active]
        simp only [QueueJob.startsLeft]
        omega
    · simp only [again, ↓reduceIte]
      exact ⟨Or.inl rfl, Nat.zero_le _, Nat.zero_le _⟩
  next => exact ⟨bounded, le_rfl, le_rfl⟩

end Jobs

/-! ## What a run has spent -/

/-- Who stored the row of an id: a POST request, or an attempt at the job of an index. -/
def StoredBy (past : List SystemEvent) (storer : Option ℕ) (id : String) : Prop :=
  storer.elim (∃ generated dto, .post generated dto ∈ past ∧ id = generated.id)
    fun index => ∃ attempt, .begin index attempt ∈ past ∧ id = attempt.generated.id

/-- What a run has spent on the job at an index is, with what is left to the job, within the
limits. -/
structure Spent (recoveries : ℕ) (past : List SystemEvent) (storers : List (Option ℕ))
    (index : ℕ) (job : QueueJob) : Prop where
  bounded : job.Bounded
  steps : past.countP (SystemEvent.worksFor index) + job.stepsLeft recoveries ≤
    5 * (DEFAULT_JOB_ATTEMPTS + recoveries)
  rows : storers.count (some index) + job.rowsLeft recoveries ≤ DEFAULT_JOB_ATTEMPTS + recoveries

/-- The account of a run, with who stored each row. -/
structure Ledger (settings : Settings) (past : List SystemEvent) (storers : List (Option ℕ))
    (system : System) : Prop where
  jobs : ∀ index job, system.jobs[index]? = some job →
    Spent settings.maxStalledCount past storers index job
  later : ∀ index, system.jobs.length ≤ index →
    past.countP (SystemEvent.worksFor index) = 0 ∧ storers.count (some index) = 0
  rows : List.Forall₂ (StoredBy past) storers
    (system.world.db.transactions.map TransactionRow.id)
  posts : storers.count none ≤ past.countP SystemEvent.isPost

section Steps

variable {settings : Settings} {past : List SystemEvent} {storers : List (Option ℕ)}
  {system next : System} {event : SystemEvent} {jobs : List QueueJob} {job other : QueueJob}
  {index recoveries : ℕ}

/-- Who stored a row stays so. -/
theorem StoredBy.append {storer : Option ℕ} {id : String} (stored : StoredBy past storer id)
    (event : SystemEvent) : StoredBy (past ++ [event]) storer id := by
  cases storer with
  | none =>
      obtain ⟨generated, dto, posted, id⟩ := stored
      exact ⟨generated, dto, List.mem_append_left _ posted, id⟩
  | some index =>
      obtain ⟨attempt, begun, id⟩ := stored
      exact ⟨attempt, List.mem_append_left _ begun, id⟩

theorem countP_concat (counts : SystemEvent → Bool) (past : List SystemEvent)
    (event : SystemEvent) :
    (past ++ [event]).countP counts = past.countP counts + if counts event then 1 else 0 := by
  rw [List.countP_append, List.countP_singleton]

/-- A step of the worker takes one job on, and the rows that it stores are of that job's
attempt. -/
theorem exists_spends (recoveries : ℕ) (bounded : ∀ job ∈ system.jobs, job.Bounded)
    (moves : Moves settings system event next) (work : event.isWork = true) :
    ∃ index job other added, system.jobs[index]? = some job ∧
      next.jobs = system.jobs.set index other ∧
      (∀ place, event.worksFor place = decide (index = place)) ∧ event.isPost = false ∧
      job.Spends recoveries other 1 (List.length added) ∧
      next.world.db.transactions = system.world.db.transactions ++ added ∧
      ∀ row ∈ added, ∃ attempt pending, job.status = .active attempt (.calling pending) ∧
        row.id = attempt.generated.id := by
  have nothing : system.world.db.transactions = system.world.db.transactions ++ [] :=
    (List.append_nil _).symm
  have noRow : ∀ job : QueueJob, ∀ row ∈ ([] : List TransactionRow), ∃ attempt pending,
      job.status = .active attempt (.calling pending) ∧ row.id = attempt.generated.id :=
    fun _ _ member => absurd member List.not_mem_nil
  cases moves with
  | queued queues =>
      cases queues
      cases work
  | @begun index attempt job found waiting capacity =>
      exact ⟨index, job, _, [], found, rfl, fun _ => rfl, rfl,
        spends_begin (bounded _ (List.mem_of_getElem? found)) waiting, nothing, noRow job⟩
  | @called index attempt job pending activity world found active calls =>
      obtain ⟨added, rows, ids, spends⟩ :=
        @spends_called job recoveries _ _ _ _ _ _ (bounded _ (List.mem_of_getElem? found)) active
          calls
      exact ⟨index, job, _, added, found, rfl, fun _ => rfl, rfl, spends, rows,
        fun row member => ⟨attempt, pending, active, ids row member⟩⟩
  | @settled index job settled found settles =>
      exact ⟨index, job, _, [], found, rfl, fun _ => rfl, rfl,
        spends_settle (bounded _ (List.mem_of_getElem? found)) settles, nothing, noRow job⟩
  | _ => cases work

/-- An event that takes no job on. -/
theorem Spent.keep (spent : Spent recoveries past storers index job)
    (idle : event.worksFor index = false) {later : List (Option ℕ)}
    (same : later.count (some index) = storers.count (some index)) :
    Spent recoveries (past ++ [event]) later index job where
  bounded := spent.bounded
  steps := by
    rw [countP_concat, idle]
    exact spent.steps
  rows := by
    rw [same]
    exact spent.rows

theorem worksFor_of_idle (idle : event.isWork = false) (index : ℕ) :
    event.worksFor index = false := by
  cases event with
  | begin | advance | settle => cases idle
  | _ => rfl

/-- The rows of one attempt have one storer. -/
theorem forall₂_storedBy {rows : List TransactionRow} {storer : Option ℕ}
    (stored : ∀ row ∈ rows, StoredBy past storer row.id) :
    List.Forall₂ (StoredBy past) (List.replicate rows.length storer)
      (rows.map TransactionRow.id) := by
  induction rows with
  | nil => exact .nil
  | cons row rows ih =>
      exact .cons (stored row List.mem_cons_self)
        (ih fun other member => stored other (List.mem_cons_of_mem _ member))

/-- A step of the worker is charged to its job. -/
theorem Ledger.work (ledger : Ledger settings past storers system)
    (traced : Traced settings past system) (moves : Moves settings system event next)
    (work : event.isWork = true) :
    ∃ storers, Ledger settings (past ++ [event]) storers next := by
  have bounded : ∀ job ∈ system.jobs, job.Bounded := by
    intro job member
    obtain ⟨index, found⟩ := List.getElem?_of_mem member
    exact (ledger.jobs index job found).bounded
  obtain ⟨index, job, other, added, found, jobs, works, unposted, spends, rows, ids⟩ :=
    exists_spends settings.maxStalledCount bounded moves work
  have count : ∀ place, (storers ++ List.replicate added.length (some index)).count (some place) =
      storers.count (some place) + if index = place then added.length else 0 := by
    intro place
    rw [List.count_append, List.count_replicate]
    simp only [beq_iff_eq, Option.some_inj]
  refine ⟨storers ++ List.replicate added.length (some index), ?_, ?_, ?_, ?_⟩
  · intro place current present
    rw [jobs, List.getElem?_set] at present
    split at present
    next here =>
      subst here
      split at present
      next =>
        cases present
        have spent := ledger.jobs index job found
        refine ⟨spends.bounded, ?_, ?_⟩
        · rw [countP_concat, works, if_pos (decide_eq_true rfl)]
          have := spent.steps
          have := spends.steps
          omega
        · rw [count, if_pos rfl]
          have := spent.rows
          have := spends.rows
          omega
      next => cases present
    next elsewhere =>
      refine (ledger.jobs place current present).keep ?_ ?_
      · rw [works]
        exact decide_eq_false elsewhere
      · rw [count, if_neg elsewhere, Nat.add_zero]
  · intro place beyond
    rw [jobs, List.length_set] at beyond
    obtain ⟨inside, -⟩ := List.getElem?_eq_some_iff.mp found
    obtain ⟨noSteps, noRows⟩ := ledger.later place beyond
    have elsewhere : index ≠ place := by omega
    rw [countP_concat, works, count, noSteps, noRows, decide_eq_false elsewhere,
      if_neg elsewhere]
    exact ⟨rfl, rfl⟩
  · rw [rows, List.map_append]
    refine List.rel_append (ledger.rows.imp fun _ _ stored => stored.append event) ?_
    refine forall₂_storedBy ?_
    intro row member
    obtain ⟨attempt, pending, active, id⟩ := ids row member
    have begun := ((traced.jobs index job found).calling attempt pending active).1
    exact ⟨attempt, List.mem_append_left _ begun, id⟩
  · rw [countP_concat, unposted, List.count_append, List.count_replicate]
    exact ledger.posts

/-- Any other event is charged to no job. -/
theorem Ledger.idle (ledger : Ledger settings past storers system) (idle : event.isWork = false)
    (jobs : next.jobs = system.jobs) (rows : next.world.db.transactions.map TransactionRow.id =
      system.world.db.transactions.map TransactionRow.id) :
    Ledger settings (past ++ [event]) storers next := by
  have works := worksFor_of_idle idle
  refine ⟨?_, ?_, ?_, ?_⟩
  · intro index job found
    rw [jobs] at found
    exact (ledger.jobs index job found).keep (works index) rfl
  · intro index beyond
    rw [jobs] at beyond
    rw [countP_concat, works]
    exact ledger.later index beyond
  · rw [rows]
    exact ledger.rows.imp fun _ _ stored => stored.append event
  · rw [countP_concat]
    exact ledger.posts.trans (Nat.le_add_right _ _)

/-- A new job has spent nothing. -/
theorem ledger_queued (ledger : Ledger settings past storers system)
    (idle : event.isWork = false) (data : ImageProcessingJobPayload) :
    Ledger settings (past ++ [event]) storers
      { system with jobs := system.jobs ++ [.added data] } := by
  have quiet : Ledger settings (past ++ [event]) storers system := ledger.idle idle rfl rfl
  refine { quiet with jobs := ?_, later := ?_ }
  · intro index job found
    rw [List.getElem?_append] at found
    split at found
    next => exact quiet.jobs index job found
    next beyond =>
      rw [List.mem_singleton.mp (List.mem_of_getElem? found)]
      obtain ⟨noSteps, noRows⟩ := quiet.later index (not_lt.mp beyond)
      refine ⟨bounded_added data, ?_, ?_⟩
      · rw [noSteps, Nat.zero_add]
        exact le_rfl
      · rw [noRows, Nat.zero_add]
        exact le_rfl
  · intro index beyond
    rw [List.length_append] at beyond
    exact quiet.later index (by omega)

/-- A restart is charged to no job; the recoveries that it uses up were counted from the start. -/
theorem ledger_restart (ledger : Ledger settings past storers system) :
    Ledger settings (past ++ [.restart]) storers (system.restart settings) := by
  have quiet : Ledger settings (past ++ [.restart]) storers system := ledger.idle rfl rfl rfl
  refine { quiet with jobs := ?_, later := ?_ }
  · intro index job found
    simp only [System.restart, List.getElem?_map, Option.map_eq_some_iff] at found
    obtain ⟨old, present, rfl⟩ := found
    have spent := quiet.jobs index old present
    have spends := @spends_stall old settings.maxStalledCount spent.bounded
    exact ⟨spends.bounded, (Nat.add_le_add_left spends.steps _).trans spent.steps,
      (Nat.add_le_add_left spends.rows _).trans spent.rows⟩
  · intro index beyond
    rw [System.restart, List.length_map] at beyond
    exact quiet.later index beyond

/-- A posted row has no job. -/
theorem ledger_posted {generated : Generated} {dto : CreateTransactionDto} {row : TransactionRow}
    {db : Db} (ledger : Ledger settings past storers system)
    (converts : (dto.toNew settings.server.reader).toRow settings.server.reader generated =
      some row)
    (inserts : system.world.db.insert row = some db) :
    Ledger settings (past ++ [.post generated dto]) (storers ++ [none])
      { system with world := { system.world with db := db } } := by
  have quiet : Ledger settings (past ++ [.post generated dto]) storers system :=
    ledger.idle rfl rfl rfl
  have count : ∀ index, (storers ++ [none]).count (some index) = storers.count (some index) := by
    intro index
    rw [List.count_append]
    rfl
  refine ⟨?_, ?_, ?_, ?_⟩
  · intro index job found
    exact (ledger.jobs index job found).keep rfl (count index)
  · intro index beyond
    rw [count]
    exact quiet.later index beyond
  · rw [(Db.insert_eq_some.mp inserts).2.1, List.map_append]
    have posted : SystemEvent.post generated dto ∈ past ++ [.post generated dto] :=
      List.mem_append_right _ List.mem_cons_self
    refine List.rel_append quiet.rows (.cons ?_ .nil)
    exact ⟨generated, dto, posted, (toRow_eq_some.mp converts).1.1⟩
  · rw [countP_concat, List.count_append]
    exact Nat.add_le_add_right ledger.posts _

/-- Every step of the system keeps some ledger. -/
theorem ledger_of_moves (ledger : Ledger settings past storers system)
    (traced : Traced settings past system) (moves : Moves settings system event next) :
    ∃ storers, Ledger settings (past ++ [event]) storers next := by
  cases work : event.isWork with
  | true => exact ledger.work traced moves work
  | false =>
      cases moves with
      | queued queues => exact ⟨_, ledger_queued ledger work _⟩
      | begun | called | settled => cases work
      | restarted => exact ⟨_, ledger_restart ledger⟩
      | posted converts inserts => exact ⟨_, ledger_posted ledger converts inserts⟩
      | committed found writes =>
          refine ⟨storers, ledger.idle work rfl ?_⟩
          rw [writes.rows, Db.map_id_updateRows]
      | _ => exact ⟨storers, ledger.idle work rfl rfl⟩

/-- Every run has a ledger. -/
theorem ledger_run {events : List SystemEvent}
    (ran : (application settings).run .initial events = some system) :
    ∃ storers, Ledger settings events storers system := by
  refine (EventMachine.run_history (fun past system =>
    (application settings).run .initial past = some system ∧ EditsKnown system ∧
      ∃ storers, Ledger settings past storers system) ⟨rfl, editsKnown_initial, [], ?_⟩ ?_
    ran).2.2
  · refine ⟨?_, fun _ _ => ⟨rfl, rfl⟩, .nil, le_rfl⟩
    intro index job found
    cases found
  · intro past system event next good step
    obtain ⟨reached, known, storers, ledger⟩ := good
    exact ⟨EventMachine.run_concat_eq_some.mpr ⟨system, reached, step⟩, editsKnown_step known step,
      ledger_of_moves ledger (traced_run reached) (moves_of_step known step)⟩

/-- The jobs of a reachable system that are not finished have an attempt left. -/
theorem bounded_run {events : List SystemEvent}
    (ran : (application settings).run .initial events = some system) :
    ∀ job ∈ system.jobs, job.Bounded := by
  obtain ⟨storers, ledger⟩ := ledger_run ran
  intro job member
  obtain ⟨index, found⟩ := List.getElem?_of_mem member
  exact (ledger.jobs index job found).bounded

/-! ## What is left to do -/

/-- A job that is replaced adds to the active ones only if it begins. -/
theorem activeJobs_set (found : jobs[index]? = some job) :
    (jobs.set index other).countP (·.status.isActive) + (if job.status.isActive then 1 else 0) =
      jobs.countP (·.status.isActive) + if other.status.isActive then 1 else 0 := by
  obtain ⟨inside, rfl⟩ := List.getElem?_eq_some_iff.mp found
  have counted : (if jobs[index].status.isActive then 1 else 0) ≤
      jobs.countP (·.status.isActive) := by
    split
    next active => exact List.countP_pos_iff.mpr ⟨_, List.getElem_mem inside, active⟩
    next => exact Nat.zero_le _
  rw [List.countP_set inside]
  omega

theorem activeJobs_of_moves (limited : system.activeJobs ≤ concurrency)
    (moves : Moves settings system event next) : next.activeJobs ≤ concurrency := by
  have active : ∀ attempt activity, (JobStatus.active attempt activity).isActive = true :=
    fun _ _ => rfl
  cases moves with
  | @queued _ user photo queues =>
      have idle : (QueueJob.added (payloadOf user photo)).status.isActive = false := rfl
      simpa only [System.activeJobs, List.countP_append, List.countP_singleton, idle,
        Bool.false_eq_true, ↓reduceIte, Nat.add_zero] using limited
  | @begun index attempt job found waiting capacity =>
      have count := @activeJobs_set system.jobs job (job.begin settings.server attempt) index found
      have before : job.status.isActive = false := by
        rw [waiting]
        rfl
      have after : (job.begin settings.server attempt).status.isActive = true := rfl
      simp only [before, after, Bool.false_eq_true, ↓reduceIte, Nat.add_zero] at count
      exact count.le.trans capacity
  | @called index attempt job pending activity world found status calls =>
      have count := @activeJobs_set system.jobs job
        { job with status := .active attempt activity } index found
      simp only [status, active, ↓reduceIte, Nat.add_right_cancel_iff] at count
      exact count.le.trans limited
  | @settled index job settled found settles =>
      have count := @activeJobs_set system.jobs job settled index found
      simp only [(settle_spec settles).2, Bool.false_eq_true, ↓reduceIte, Nat.add_zero] at count
      exact ((Nat.le_add_right _ _).trans count.le).trans limited
  | restarted =>
      have none : (system.restart settings).activeJobs = 0 := by
        rw [System.activeJobs, List.countP_eq_zero]
        intro job member
        obtain ⟨old, -, rfl⟩ := List.mem_map.mp member
        rw [stall_isActive]
        exact Bool.false_ne_true
      rw [none]
      exact Nat.zero_le _
  | _ => exact limited

/-- No run has more active jobs than the worker takes at once. -/
theorem activeJobs_run {events : List SystemEvent}
    (ran : (application settings).run .initial events = some system) :
    system.activeJobs ≤ concurrency := by
  have start : EditsKnown .initial ∧ System.initial.activeJobs ≤ concurrency :=
    ⟨editsKnown_initial, Nat.zero_le _⟩
  refine (EventMachine.run_history (fun _ system => EditsKnown system ∧
    system.activeJobs ≤ concurrency) start ?_ ran).2
  intro past system event next good step
  have moves := moves_of_step good.1 step
  exact ⟨editsKnown_of_moves good.1 moves, activeJobs_of_moves good.2 moves⟩

theorem sum_map_set (left : QueueJob → ℕ) (found : jobs[index]? = some job) :
    ((jobs.set index other).map left).sum + left job = (jobs.map left).sum + left other := by
  induction jobs generalizing index with
  | nil => cases found
  | cons first jobs ih =>
      cases index with
      | zero =>
          cases found
          simp only [List.set_cons_zero, List.map_cons, List.sum_cons]
          omega
      | succ index =>
          have rest := ih found
          simp only [List.set_cons_succ, List.map_cons, List.sum_cons]
          omega

/-- If it is not recovered, a job takes no more than twenty steps. -/
theorem stepsLeft_le (job : QueueJob) : job.stepsLeft 0 ≤ 20 := by
  have starts : job.startsLeft 0 ≤ 3 := by
    simp only [QueueJob.startsLeft, DEFAULT_JOB_ATTEMPTS]
    omega
  unfold QueueJob.stepsLeft
  split
  next => omega
  next activity _ =>
    have most : activity.stepsLeft ≤ 4 := by
      cases activity with
      | calling pending => cases pending <;> simp [Activity.stepsLeft]
      | _ => simp [Activity.stepsLeft]
    omega
  next => exact Nat.zero_le _

/-- What is kept, and what is used up, while only the worker takes steps. -/
structure Drains (before : System) (later : List SystemEvent) (system : System) : Prop where
  known : EditsKnown system
  bounded : ∀ job ∈ system.jobs, job.Bounded
  jobs : system.jobs.length = before.jobs.length
  steps : later.length + (system.jobs.map (QueueJob.stepsLeft 0)).sum ≤
    (before.jobs.map (QueueJob.stepsLeft 0)).sum

/-- A working step uses up one of the steps left. -/
theorem Drains.step {before : System} {later : List SystemEvent}
    (drains : Drains before later system) (moves : Moves settings system event next)
    (work : event.isWork = true) : Drains before (later ++ [event]) next := by
  obtain ⟨index, job, other, added, found, jobs, -, -, spends, -, -⟩ :=
    exists_spends 0 drains.bounded moves work
  refine ⟨editsKnown_of_moves drains.known moves, ?_, ?_, ?_⟩
  · intro job member
    rw [jobs] at member
    rcases List.mem_or_eq_of_mem_set member with old | rfl
    · exact drains.bounded job old
    · exact spends.bounded
  · rw [jobs, List.length_set]
    exact drains.jobs
  · have sums := @sum_map_set system.jobs job other index (QueueJob.stepsLeft 0) found
    have spent := spends.steps
    have left := drains.steps
    rw [jobs, List.length_append, List.length_singleton]
    omega

/-- Working steps use up the steps left, one by one. -/
theorem drains_run {before : System} {past events : List SystemEvent}
    (reached : (application settings).run .initial past = some before)
    (work : ∀ event ∈ events, event.isWork = true)
    (ran : (application settings).run before events = some system) :
    Drains before events system := by
  refine EventMachine.run_history (fun later system =>
    (∀ event ∈ later, event.isWork = true) → Drains before later system) ?_ ?_ ran work
  · exact fun _ => ⟨editsKnown_run reached, bounded_run reached, rfl, (Nat.zero_add _).le⟩
  · intro later middle event next kept step allWork
    have drains := kept fun event member => allWork event (List.mem_append_left _ member)
    exact drains.step (moves_of_step drains.known step)
      (allWork event (List.mem_append_right _ List.mem_cons_self))

/-! ## Steps that can be taken -/

/-- Either an attempt is under way, and can be taken on, or a waiting job can begin. -/
theorem exists_work (unfinished : ∃ job ∈ system.jobs, job.finished = false) (attempt : Attempt) :
    ∃ event : SystemEvent, event.WorksWith attempt ∧
      ((application settings).step system event).isSome = true := by
  by_cases busy : ∃ job ∈ system.jobs, job.status.isActive = true
  · obtain ⟨job, member, active⟩ := busy
    obtain ⟨index, found⟩ := List.mem_iff_getElem?.mp member
    cases status : job.status with
    | active attempt activity =>
        cases activity with
        | calling pending =>
            refine ⟨.advance index, trivial, ?_⟩
            change (system.advance settings index).isSome = true
            rw [System.advance, found]
            simp only [status, Option.isSome_some]
        | returned =>
            refine ⟨.settle index, trivial, ?_⟩
            change (system.settle index).isSome = true
            rw [System.settle, found]
            simp only [QueueJob.settle, status, Option.map_some, Option.isSome_some]
        | threw =>
            refine ⟨.settle index, trivial, ?_⟩
            change (system.settle index).isSome = true
            rw [System.settle, found]
            simp only [QueueJob.settle, status, Option.map_some, Option.isSome_some]
    | _ =>
        rw [status] at active
        cases active
  · obtain ⟨job, member, unfinished⟩ := unfinished
    obtain ⟨index, found⟩ := List.mem_iff_getElem?.mp member
    have none : system.activeJobs = 0 := by
      rw [System.activeJobs, List.countP_eq_zero]
      exact fun other present active => busy ⟨other, present, active⟩
    have waiting : job.status = .waiting := by
      rw [QueueJob.finished] at unfinished
      cases status : job.status with
      | waiting => rfl
      | active attempt activity =>
          have active : job.status.isActive = true := by
            rw [status]
            rfl
          exact absurd ⟨job, member, active⟩ busy
      | completed =>
          rw [status] at unfinished
          cases unfinished
      | failed =>
          rw [status] at unfinished
          cases unfinished
    refine ⟨.begin index attempt, rfl, ?_⟩
    change (system.begin settings index attempt).isSome = true
    rw [System.begin, found]
    simp only [waiting, none]
    exact rfl

end Steps

/-! ## Runs -/

/-- The work of a run, job by job. -/
structure WorkBounded (settings : Settings) (events : List SystemEvent) (system : System) :
    Prop where
  steps : ∀ index, events.countP (SystemEvent.worksFor index) ≤
    5 * (DEFAULT_JOB_ATTEMPTS + settings.maxStalledCount)
  idle : ∀ index, system.jobs.length ≤ index → events.countP (SystemEvent.worksFor index) = 0
  rows : ∃ storers, List.Forall₂ (StoredBy events) storers
      (system.world.db.transactions.map TransactionRow.id) ∧
    (∀ index, storers.count (some index) ≤ DEFAULT_JOB_ATTEMPTS + settings.maxStalledCount) ∧
      storers.count none ≤ events.countP SystemEvent.isPost
  active : system.activeJobs ≤ concurrency

/-- For each queued photo the worker takes at most five steps and stores at most one row per
attempt, of which there are three and one more for each recovery that the queue allows; the other
rows were posted, one per request, and no more than two jobs are ever active. -/
theorem run_work_bounded (settings : Settings) {events : List SystemEvent} {system : System}
    (ran : (application settings).run .initial events = some system) :
    WorkBounded settings events system := by
  obtain ⟨storers, ledger⟩ := ledger_run ran
  have limits : ∀ index, events.countP (SystemEvent.worksFor index) ≤
        5 * (DEFAULT_JOB_ATTEMPTS + settings.maxStalledCount) ∧
      storers.count (some index) ≤ DEFAULT_JOB_ATTEMPTS + settings.maxStalledCount := by
    intro index
    cases found : system.jobs[index]? with
    | some job =>
        have spent := ledger.jobs index job found
        exact ⟨(Nat.le_add_right _ _).trans spent.steps, (Nat.le_add_right _ _).trans spent.rows⟩
    | none =>
        obtain ⟨noSteps, noRows⟩ := ledger.later index (List.getElem?_eq_none_iff.mp found)
        rw [noSteps, noRows]
        exact ⟨Nat.zero_le _, Nat.zero_le _⟩
  exact ⟨fun index => (limits index).1, fun index beyond => (ledger.later index beyond).1,
    ⟨storers, ledger.rows, fun index => (limits index).2, ledger.posts⟩, activeJobs_run ran⟩

theorem sampleRun_work_bounded : ∃ system,
    (application sampleSettings).run .initial sampleRun = some system ∧
      WorkBounded sampleSettings sampleRun system := by
  obtain ⟨system, ran, -⟩ := run_sampleRun
  exact ⟨system, ran, run_work_bounded sampleSettings ran⟩

/-- From a reachable system the worker takes at most twenty steps for each job, and it has a step
to take, whatever the services answer, until every job is completed or failed. -/
theorem run_work_terminates (settings : Settings) {past events : List SystemEvent}
    {system final : System} (reached : (application settings).run .initial past = some system)
    (work : ∀ event ∈ events, event.isWork = true)
    (ran : (application settings).run system events = some final) :
    events.length ≤ 20 * system.jobs.length ∧
      ((∃ job ∈ final.jobs, job.finished = false) → ∀ attempt, ∃ event : SystemEvent,
        event.WorksWith attempt ∧ ((application settings).step final event).isSome = true) := by
  refine ⟨?_, exists_work⟩
  have spent := (drains_run reached work ran).steps
  have most : (system.jobs.map (QueueJob.stepsLeft 0)).sum ≤ system.jobs.length * 20 := by
    rw [← Nat.nsmul_eq_mul, ← List.length_map (QueueJob.stepsLeft 0)]
    refine List.sum_le_card_nsmul _ _ fun left member => ?_
    obtain ⟨job, -, rfl⟩ := List.mem_map.mp member
    exact stepsLeft_le job
  omega

/-- One attempt at the job of the sample run. -/
theorem sampleRun_work_terminates : ∃ system final,
    (application sampleSettings).run .initial (sampleRun.take 1) = some system ∧
      (application sampleSettings).run system ((sampleRun.drop 1).take 4) = some final ∧
      ((sampleRun.drop 1).take 4).length ≤ 20 * system.jobs.length ∧
      ((∃ job ∈ final.jobs, job.finished = false) → ∀ attempt, ∃ event : SystemEvent,
        event.WorksWith attempt ∧
          ((application sampleSettings).step final event).isSome = true) := by
  have evaluated : ((application sampleSettings).run .initial
      (sampleRun.take 1 ++ (sampleRun.drop 1).take 4)).isSome = true := by decide +kernel
  obtain ⟨final, ran⟩ := Option.isSome_iff_exists.mp evaluated
  obtain ⟨system, reached, ran⟩ := EventMachine.run_append_eq_some _ ran
  have work : ∀ event ∈ (sampleRun.drop 1).take 4, event.isWork = true :=
    List.all_eq_true.mp (by decide +kernel)
  exact ⟨system, final, reached, ran, run_work_terminates sampleSettings reached work ran⟩

end BirrTrack.Application
