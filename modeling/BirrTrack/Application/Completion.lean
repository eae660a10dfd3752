import BirrTrack.Application.Announcements

/-! # What a completed job stands for

The queue calls a job completed when an attempt at it has returned. Such an attempt found a
critical field missing, or the row of the receipt that it read was stored and announced.
-/

namespace BirrTrack.Application

open Processing Transactions Telegram

variable {settings : Settings} {past : List SystemEvent} {system next : System}
  {event : SystemEvent} {world after : World} {attempt : Attempt} {server : Server}
  {data : ImageProcessingJobPayload}

/-- The object that an attempt saves for the receipt it read. -/
def SavedFrom (server : Server) (attempt : Attempt) (data : ImageProcessingJobPayload)
    (transaction : Transaction) : Prop :=
  ∃ receipt flag row, receiptOf server attempt data = .ok (some receipt) ∧
    (({ receipt with isDuplicate := flag } : CreateTransactionDto).toNew server.reader).toRow
      server.reader attempt.generated = some row ∧
    transaction = (({ receipt with isDuplicate := flag } : CreateTransactionDto).toNew
      server.reader).saved row

/-- The attempt read no receipt, or announced the one that it read. -/
def Done (server : Server) (attempt : Attempt) (data : ImageProcessingJobPayload)
    (world : World) : Prop :=
  receiptOf server attempt data = .ok none ∨
    ∃ transaction, SavedFrom server attempt data transaction ∧
      toResponse transaction ∈ world.events

/-- An attempt does its calls for the receipt that it read. -/
def Activity.Tracks (server : Server) (attempt : Attempt) (data : ImageProcessingJobPayload)
    (world : World) : Activity → Prop
  | calling (.findDuplicate receipt) => receiptOf server attempt data = .ok (some receipt)
  | calling (.create receipt) => ∃ read flag, receiptOf server attempt data = .ok (some read) ∧
      receipt = { read with isDuplicate := flag }
  | calling (.emit transaction) => SavedFrom server attempt data transaction
  | returned => Done server attempt data world
  | threw => True

/-- What the status of the job at an index says about the run so far. -/
def JobStatus.Tracks (server : Server) (past : List SystemEvent) (index : ℕ)
    (data : ImageProcessingJobPayload) (world : World) : JobStatus → Prop
  | active attempt activity =>
      .begin index attempt ∈ past ∧ activity.Tracks server attempt data world
  | completed => ∃ attempt, .begin index attempt ∈ past ∧ Done server attempt data world
  | _ => True

/-- Every job's status says so. -/
def JobsTrack (settings : Settings) (past : List SystemEvent) (system : System) : Prop :=
  ∀ (index : ℕ) (job : QueueJob), system.jobs[index]? = some job →
    job.status.Tracks settings.server past index job.data system.world

theorem Done.mono (done : Done server attempt data world)
    (events : world.events <+: after.events) : Done server attempt data after := by
  refine done.imp_right ?_
  rintro ⟨transaction, saved, member⟩
  exact ⟨transaction, saved, events.subset member⟩

theorem JobStatus.Tracks.mono {status : JobStatus} {index : ℕ}
    (tracks : status.Tracks server past index data world) (event : SystemEvent)
    (events : world.events <+: after.events) :
    status.Tracks server (past ++ [event]) index data after := by
  cases status with
  | active attempt activity =>
      obtain ⟨begun, tracks⟩ := tracks
      refine ⟨List.mem_append_left _ begun, ?_⟩
      cases activity with
      | calling pending =>
          cases pending with
          | findDuplicate receipt => exact tracks
          | create receipt => exact tracks
          | emit transaction => exact tracks
      | returned => exact Done.mono tracks events
      | threw => exact trivial
  | completed =>
      obtain ⟨attempt, begun, done⟩ := tracks
      exact ⟨attempt, List.mem_append_left _ begun, done.mono events⟩
  | waiting => exact trivial
  | failed => exact trivial

/-- A step that keeps the jobs as they are, or replaces one by a job that tracks. -/
theorem JobsTrack.set (tracked : JobsTrack settings past system) {jobs : List QueueJob} {index : ℕ}
    {other : QueueJob} {world : World} (event : SystemEvent)
    (events : system.world.events <+: world.events)
    (new : other.status.Tracks settings.server (past ++ [event]) index other.data world)
    (same : jobs = system.jobs.set index other) {replies : List String} {edits : List OpenEdit} :
    JobsTrack settings (past ++ [event]) ⟨world, replies, jobs, edits⟩ := by
  intro place job found
  rw [same, List.getElem?_set] at found
  split at found
  next here =>
    subst here
    split at found
    next =>
      cases found
      exact new
    next => cases found
  next => exact (tracked place job found).mono event events

theorem JobsTrack.keep (tracked : JobsTrack settings past system) (event : SystemEvent)
    (jobs : next.jobs = system.jobs) (events : system.world.events <+: next.world.events) :
    JobsTrack settings (past ++ [event]) next := by
  intro index job found
  rw [jobs] at found
  exact (tracked index job found).mono event events

/-- A job that is begun tracks the attempt it starts with. -/
theorem tracks_begin (job : QueueJob) (index : ℕ) (attempt : Attempt) (world : World) :
    (job.begin settings.server attempt).status.Tracks settings.server
      (past ++ [.begin index attempt]) index (job.begin settings.server attempt).data world := by
  refine ⟨List.mem_append_right _ (List.mem_singleton.mpr rfl), ?_⟩
  change Activity.Tracks _ _ job.data _ _
  split
  next => exact trivial
  next read => exact Or.inl read
  next receipt read => exact read

/-- A call leads on to an activity that tracks the attempt as well. -/
theorem tracks_called {pending : Pending} {activity : Activity}
    (tracks : (Activity.calling pending).Tracks server attempt data world)
    (calls : Called server attempt world pending activity after) :
    activity.Tracks server attempt data after := by
  cases calls with
  | looked receipt flag _ => exact ⟨receipt, flag, tracks, rfl⟩
  | stored converts inserts reached =>
      obtain ⟨receipt, flag, read, rfl⟩ := tracks
      rcases reached with rfl | rfl
      · exact ⟨receipt, flag, _, read, converts, rfl⟩
      · exact trivial
  | emitted transaction reached =>
      rcases reached with rfl | rfl
      · exact Or.inr ⟨transaction, tracks, List.mem_append_right _ (List.mem_singleton.mpr rfl)⟩
      · exact trivial
  | failed => exact trivial

/-- Settling keeps what an attempt has done, and starts the next one anew. -/
theorem tracks_settle {job settled : QueueJob} {index : ℕ}
    (tracks : job.status.Tracks server past index job.data world)
    (settles : job.settle = some settled) :
    settled.status.Tracks server past index settled.data world := by
  unfold QueueJob.settle at settles
  split at settles
  next attempt active =>
    cases settles
    rw [active] at tracks
    exact ⟨attempt, tracks⟩
  next =>
    cases settles
    simp only
    split <;> exact trivial
  next => cases settles

/-- A stalled job has nothing to track. -/
theorem tracks_stall {job : QueueJob} {index : ℕ} (limit : ℕ)
    (tracks : job.status.Tracks server past index job.data world) :
    (job.stall limit).status.Tracks server past index (job.stall limit).data world := by
  unfold QueueJob.stall
  split
  next =>
    simp only
    split <;> exact trivial
  next => exact tracks

/-- Every step keeps what the jobs track. -/
theorem jobsTrack_of_moves (tracked : JobsTrack settings past system)
    (moves : Moves settings system event next) : JobsTrack settings (past ++ [event]) next := by
  have events := (extends_of_moves moves).events
  cases moves with
  | queued queues =>
      intro index job found
      rw [List.getElem?_append] at found
      split at found
      next => exact (tracked index job found).mono _ events
      next =>
        have member := List.mem_of_getElem? found
        rw [List.mem_singleton] at member
        subst member
        exact trivial
  | begun found waiting capacity => exact tracked.set _ events (tracks_begin _ _ _ _) rfl
  | @called index attempt job pending activity world found active calls =>
      have tracks := tracked index job found
      rw [active] at tracks
      have new : (JobStatus.active attempt activity).Tracks settings.server
          (past ++ [.advance index]) index job.data world :=
        ⟨List.mem_append_left _ tracks.1, tracks_called tracks.2 calls⟩
      exact tracked.set _ events new rfl
  | @settled index job settled found settles =>
      have new := tracks_settle ((tracked index job found).mono (.settle index) events) settles
      exact tracked.set _ events new rfl
  | restarted =>
      intro index job found
      simp only [System.restart, List.getElem?_map, Option.map_eq_some_iff] at found
      obtain ⟨old, present, rfl⟩ := found
      exact tracks_stall _ ((tracked index old present).mono _ events)
  | _ => exact tracked.keep _ rfl events

/-- So every run does. -/
theorem jobsTrack_run (ran : (application settings).run .initial past = some system) :
    JobsTrack settings past system := by
  refine (EventMachine.run_history (fun past system => EditsKnown system ∧
    JobsTrack settings past system) ⟨editsKnown_initial, fun _ _ found => nomatch found⟩ ?_ ran).2
  intro past system event next good step
  obtain ⟨known, tracked⟩ := good
  exact ⟨editsKnown_step known step, jobsTrack_of_moves tracked (moves_of_step known step)⟩

/-- The queue calls a job completed only if one of its attempts read no receipt from the image,
or stored what it read and announced it. -/
theorem run_completed_done (settings : Settings) {events : List SystemEvent} {system : System}
    (ran : (application settings).run .initial events = some system) {index : ℕ} {job : QueueJob}
    (found : system.jobs[index]? = some job) (completed : job.status = .completed) :
    ∃ attempt, .begin index attempt ∈ events ∧
      (receiptOf settings.server attempt job.data = .ok none ∨
        ∃ transaction, SavedFrom settings.server attempt job.data transaction ∧
          toResponse transaction ∈ system.world.events ∧
          ∃ row ∈ system.world.db.transactions, Announces transaction row) := by
  have tracks := jobsTrack_run ran index job found
  rw [completed] at tracks
  obtain ⟨attempt, begun, none | ⟨transaction, saved, member⟩⟩ := tracks
  · exact ⟨attempt, begun, Or.inl none⟩
  · exact ⟨attempt, begun, Or.inr ⟨transaction, saved, member,
      (announced_run ran).stored _ member⟩⟩

/-- The job of the sample run is completed after two attempts. -/
theorem sampleRun_completed_done : ∃ system job,
    (application sampleSettings).run .initial sampleRun = some system ∧
      system.jobs[0]? = some job ∧ job.status = .completed ∧
      ∃ attempt, .begin 0 attempt ∈ sampleRun ∧
        (receiptOf sampleServer attempt job.data = .ok none ∨
          ∃ transaction, SavedFrom sampleServer attempt job.data transaction ∧
            toResponse transaction ∈ system.world.events ∧
            ∃ row ∈ system.world.db.transactions, Announces transaction row) := by
  have evaluated : ((application sampleSettings).run .initial sampleRun).any (fun system =>
      system.jobs[0]?.any fun job => match job.status with
        | .completed => true
        | _ => false) = true := by decide +kernel
  obtain ⟨system, ran, jobs⟩ := (Option.any_eq_true _ _).mp evaluated
  obtain ⟨job, found, status⟩ := (Option.any_eq_true _ _).mp jobs
  have completed : job.status = .completed := by
    split at status
    next completed => exact completed
    next => cases status
  exact ⟨system, job, ran, found, completed,
    run_completed_done sampleSettings ran found completed⟩

end BirrTrack.Application
