import BirrTrack.Telegram.Service

/-! # Acknowledged updates

The webhook answers `{ ok: true }` whenever its secret is right, whatever becomes of the
handlers. For an update with a photo that means a queued job only if it is a `message`, the
guard admits it and the queue takes the job: `handlePhotoMessage` finds no `context.message` in
an `edited_message`, and the global filter swallows what a handler throws.
-/

namespace BirrTrack.Telegram

open Processing

variable {delivery : Delivery} {context : Update} {photos : List PhotoSize} {user : User}
  {expectedSecret : Option String} {secret : String} {outbox after : Outbox}

/-! ## The handlers -/

/-- A call that fails before its effect sends nothing; any other call does. -/
theorem run_sending (fault : Option Fault) (send : Outbox → Outbox) (outbox : Outbox) :
    ((sending fault send).run outbox).2 = if fault = some .before then outbox else send outbox := by
  cases fault with
  | none => rfl
  | some moment =>
      cases moment with
      | before => rfl
      | after => rfl

/-- Behind the guard and the filter nothing is thrown. -/
theorem run_inTelegraf (handler : Procedure Outbox Exception Unit) (outbox : Outbox) :
    (inTelegraf delivery handler).run outbox =
      (.ok (), match delivery.guard with
        | .ok _ => (handler.run outbox).2
        | .error _ => outbox) := by
  rw [inTelegraf, Procedure.run_tryCatch]
  cases admitted : delivery.guard with
  | error exception => rfl
  | ok _ =>
      rw [Procedure.run_ofExcept_bind]
      rcases handler.run outbox with ⟨result, after⟩
      cases result with
      | ok _ => rfl
      | error exception => rfl

/-- `handleUpdate` resolves for every update. -/
theorem run_handleUpdate (context : Update) (outbox : Outbox) :
    ∃ after, (handleUpdate delivery context).run outbox = (.ok (), after) := by
  unfold handleUpdate
  split
  next =>
    split
    next => exact ⟨_, run_inTelegraf _ outbox⟩
    next => exact ⟨_, run_inTelegraf _ outbox⟩
  next => exact ⟨_, run_inTelegraf _ outbox⟩
  next => exact ⟨_, run_inTelegraf _ outbox⟩
  next => exact ⟨outbox, rfl⟩

/-- The selected photo is one of those with the largest area. -/
theorem sortedPhotos_head {selectedPhoto : PhotoSize} {others : List PhotoSize}
    (sorted : sortedPhotos photos = selectedPhoto :: others) :
    selectedPhoto ∈ photos ∧ ∀ other ∈ photos, other.area ≤ selectedPhoto.area := by
  have members : ∀ photo, photo ∈ photos ↔ photo ∈ selectedPhoto :: others := by
    intro photo
    rw [← sorted, sortedPhotos, List.mem_insertionSort]
  have total : Std.Total fun a b : PhotoSize => b.area ≤ a.area :=
    ⟨fun a b => le_total b.area a.area⟩
  have transitive : IsTrans PhotoSize fun a b => b.area ≤ a.area :=
    ⟨fun a b c first second => second.trans first⟩
  have descending := List.pairwise_insertionSort (fun a b : PhotoSize => b.area ≤ a.area) photos
  rw [← sortedPhotos, sorted, List.pairwise_cons] at descending
  refine ⟨(members selectedPhoto).mpr List.mem_cons_self, ?_⟩
  intro other member
  rcases List.mem_cons.mp ((members other).mp member) with rfl | later
  · exact le_rfl
  · exact descending.1 other later

/-- A photo of a `message` queues a job for its sender, unless the queue fails first. -/
theorem run_handlePhotoMessage (nonempty : photos ≠ []) (outbox : Outbox) :
    ∃ selectedPhoto ∈ photos, (∀ other ∈ photos, other.area ≤ selectedPhoto.area) ∧
      ((handlePhotoMessage delivery (.message ⟨some user, .photo photos⟩)).run outbox).2 =
        if user.id = 0 ∨ delivery.add = some .before then outbox
        else { outbox with jobs := outbox.jobs ++ [payloadOf user selectedPhoto] } := by
  cases sorted : sortedPhotos photos with
  | nil =>
      have length := List.length_insertionSort (fun a b : PhotoSize => b.area ≤ a.area) photos
      rw [← sortedPhotos, sorted, List.length_nil, eq_comm, List.length_eq_zero_iff] at length
      exact absurd length nonempty
  | cons selectedPhoto others =>
      obtain ⟨member, largest⟩ := sortedPhotos_head sorted
      refine ⟨selectedPhoto, member, largest, ?_⟩
      simp only [handlePhotoMessage, Update.contextMessage, Update.contextFrom, sorted]
      by_cases noId : user.id = 0
      · simp only [noId, ↓reduceIte, true_or, Procedure.run_pure]
      · simp only [noId, ↓reduceIte, false_or]
        exact run_sending delivery.add _ outbox

/-! ## The webhook -/

/-- The request does not know the configured secret. -/
def Refused (expectedSecret : Option String) (secret : String) : Prop :=
  expectedSecret.getD "" ≠ "" ∧ secret ≠ expectedSecret.getD ""

/-- A `message` or an `edited_message` with these photos from this user. -/
structure Carries (context : Update) (photos : List PhotoSize) (user : User) : Prop where
  nonempty : photos ≠ []
  received : context = .message ⟨some user, .photo photos⟩ ∨
    context = .edited_message ⟨some user, .photo photos⟩

/-- Exactly one job is added, with the sender's id and a photo of the largest area. -/
def Enqueued (photos : List PhotoSize) (user : User) (before after : Outbox) : Prop :=
  ∃ job, after.jobs = before.jobs ++ [job] ∧ job.telegramUserId = toString user.id ∧
    ∃ photo ∈ photos, job.fileId = photo.file_id ∧ ∀ other ∈ photos, other.area ≤ photo.area

theorem not_enqueued_self : ¬ Enqueued photos user outbox outbox := by
  intro enqueued
  obtain ⟨job, jobs, -⟩ := enqueued
  exact absurd (List.append_right_eq_self.mp jobs.symm) (List.cons_ne_nil job [])

/-- A refused request answers with the forbidden exception and sends nothing out. -/
theorem run_handleWebhook_of_refused (refused : Refused expectedSecret secret) :
    (handleWebhook delivery context expectedSecret secret).run outbox =
      (.error (forbidden "Invalid Telegram webhook secret"), outbox) := by
  have thrown : handleWebhook delivery context expectedSecret secret =
      throw (forbidden "Invalid Telegram webhook secret") := if_pos refused
  rw [thrown, Procedure.run_throw]

/-- Any other request is acknowledged, whatever its handler did. -/
theorem run_handleWebhook (known : ¬ Refused expectedSecret secret) :
    (handleWebhook delivery context expectedSecret secret).run outbox =
      (.ok ⟨true⟩, ((handleUpdate delivery context).run outbox).2) := by
  obtain ⟨after, ran⟩ := @run_handleUpdate delivery context outbox
  have handled : handleWebhook delivery context expectedSecret secret =
      (do handleUpdate delivery context; return ⟨true⟩) := if_neg known
  rw [handled, Procedure.run_bind_ok ran, ran, Procedure.run_pure]

/-- What `{ ok: true }` promises of an update with a photo. -/
def AcknowledgesEnqueued (delivery : Delivery) (context : Update) (photos : List PhotoSize)
    (user : User) (expectedSecret : Option String) (secret : String) (outbox : Outbox) : Prop :=
  ∀ after, (handleWebhook delivery context expectedSecret secret).run outbox = (.ok ⟨true⟩, after) →
    Enqueued photos user outbox after

/-- An acknowledgement means a queued job exactly for a `message` that the guard admits and
whose job reaches the queue. -/
theorem acknowledgesEnqueued_iff (carries : Carries context photos user) :
    AcknowledgesEnqueued delivery context photos user expectedSecret secret outbox ↔
      Refused expectedSecret secret ∨
        (context = .message ⟨some user, .photo photos⟩ ∧ user.id ≠ 0 ∧
          delivery.guard = .ok () ∧ delivery.add ≠ some .before) := by
  obtain ⟨nonempty, received⟩ := carries
  by_cases refused : Refused expectedSecret secret
  · refine iff_of_true ?_ (Or.inl refused)
    intro after ran
    rw [run_handleWebhook_of_refused refused] at ran
    cases ran
  have acknowledged :
      AcknowledgesEnqueued delivery context photos user expectedSecret secret outbox ↔
        Enqueued photos user outbox ((handleUpdate delivery context).run outbox).2 := by
    simp only [AcknowledgesEnqueued, run_handleWebhook refused, Prod.mk.injEq, true_and,
      forall_eq']
  rw [acknowledged, or_iff_right refused]
  rcases received with rfl | rfl
  · obtain ⟨selectedPhoto, member, largest, sent⟩ :=
      @run_handlePhotoMessage delivery photos user nonempty outbox
    simp only [handleUpdate, run_inTelegraf, true_and, handlePhoto]
    cases admitted : delivery.guard with
    | error exception => exact iff_of_false not_enqueued_self (fun reaches => nomatch reaches.2.1)
    | ok _ =>
        simp only [sent, true_and]
        by_cases stopped : user.id = 0 ∨ delivery.add = some .before
        · rw [if_pos stopped]
          refine iff_of_false not_enqueued_self ?_
          intro reaches
          exact stopped.elim reaches.1 reaches.2
        · rw [if_neg stopped]
          exact iff_of_true ⟨_, rfl, rfl, selectedPhoto, member, rfl, largest⟩ (not_or.mp stopped)
  · have silent : ((handleUpdate delivery (.edited_message ⟨some user, .photo photos⟩)).run
        outbox).2 = outbox := by
      simp only [handleUpdate, run_inTelegraf]
      cases delivery.guard with
      | error exception => rfl
      | ok _ =>
          have some : photos.length ≠ 0 := mt List.length_eq_zero_iff.mp nonempty
          simp only [handleEditedMessage, Update.contextEditedMessage, some, ↓reduceIte]
          rfl
    rw [silent]
    exact iff_of_false not_enqueued_self (fun reaches => nomatch reaches.1)

def samplePhoto : PhotoSize := ⟨"file-1", 320, 240, by decide⟩

def sampleUser : User := ⟨42, "Abebe", none, none, by decide⟩

/-- A delivery that nothing goes wrong in. -/
def undisturbed : Delivery := ⟨fun _ => false, .ok (), none, none⟩

/-- The caption of a photo was edited. -/
def captionEdited : Update := .edited_message ⟨some sampleUser, .photo [samplePhoto]⟩

theorem captionEdited_carries : Carries captionEdited [samplePhoto] sampleUser :=
  ⟨List.cons_ne_nil _ _, Or.inr rfl⟩

theorem captionEdited_acknowledgesEnqueued_iff :
    AcknowledgesEnqueued undisturbed captionEdited [samplePhoto] sampleUser none "" ⟨[], []⟩ ↔
      Refused none "" ∨
        (captionEdited = .message ⟨some sampleUser, .photo [samplePhoto]⟩ ∧ sampleUser.id ≠ 0 ∧
          undisturbed.guard = .ok () ∧ undisturbed.add ≠ some .before) :=
  acknowledgesEnqueued_iff captionEdited_carries

/-- An edited photo is acknowledged although nothing is queued for it. -/
theorem captionEdited_not_acknowledgesEnqueued :
    Carries captionEdited [samplePhoto] sampleUser ∧
      ¬ AcknowledgesEnqueued undisturbed captionEdited [samplePhoto] sampleUser none ""
        ⟨[], []⟩ := by
  refine ⟨captionEdited_carries, ?_⟩
  intro claim
  have ran : (handleWebhook undisturbed captionEdited none "").run ⟨[], []⟩ =
      (.ok ⟨true⟩, ⟨[], []⟩) := rfl
  exact not_enqueued_self (claim _ ran)

end BirrTrack.Telegram
