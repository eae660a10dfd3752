import BirrTrack.Processing.Service
import Mathlib.Data.List.Sort

/-! # The Telegram webhook

`TelegramController.handleWebhook` hands an update to the bot, whose handlers reply to a text
and queue a job for a photo. What a handler throws goes to `GlobalExceptionFilter`.
-/

namespace BirrTrack.Telegram

open Processing

/-! ## Updates -/

/-- A Telegram user; an id has at most 52 significant bits, so that its text is exact. -/
structure User where
  id : ℕ
  first_name : String
  last_name : Option String
  username : Option String
  significant : id < 2 ^ 52

/-- One size of a photo; the product of the sides is a safe integer. -/
structure PhotoSize where
  file_id : String
  width : ℕ
  height : ℕ
  safe : width * height < 2 ^ 53

def PhotoSize.area (photo : PhotoSize) : ℕ := photo.width * photo.height

inductive Content where
  | text (text : String)
  | photo (photo : List PhotoSize)
  | other

structure Message where
  sender : Option User
  content : Content

inductive Update where
  | message (message : Message)
  | edited_message (message : Message)
  | other

namespace Update

/-- `context.message` -/
def contextMessage : Update → Option Message
  | .message received => some received
  | _ => none

/-- `context.editedMessage` -/
def contextEditedMessage : Update → Option Message
  | .edited_message received => some received
  | _ => none

/-- `context.from` -/
def contextFrom : Update → Option User
  | .message received | .edited_message received => received.sender
  | .other => none

end Update

/-! ## Exceptions -/

structure ValidationError where
  property : String
  constraints : List (String × String)

/-- The body that a thrown `HttpException` asks for. -/
structure HttpResponse where
  statusCode : ℕ
  message : String
  error : String

inductive Exception where
  | validation (errors : List ValidationError)
  | http (statusCode : ℕ) (message : String) (response : HttpResponse)
  | prisma (message : String)
  | other

def forbidden (message : String) : Exception := .http 403 message ⟨403, message, "Forbidden"⟩

inductive Details where
  | fields (errors : List ValidationError)
  | response (response : HttpResponse)
  | text (message : String)

structure FilterResponse where
  statusCode : ℕ
  errorType : String
  message : String
  details : Option Details

inductive ContextType where
  | http
  | telegraf
  deriving DecidableEq

/-- `responseData` in `GlobalExceptionFilter.catch` -/
def responseData : Exception → FilterResponse
  | .validation errors => ⟨422, "Validation Error", "Validation Error", some (.fields errors)⟩
  | .http statusCode message response =>
      ⟨statusCode, "HTTP Error", message, some (.response response)⟩
  | .prisma message => ⟨500, "Database Error", message, some (.text message)⟩
  | .other => ⟨500, "Server Error", "Internal server error", none⟩

/-- `GlobalExceptionFilter.catch`, which always returns: the response it sends, if any. -/
def filterException (exception : Exception) (contextType : ContextType) : Option FilterResponse :=
  if contextType ≠ .http then none else some (responseData exception)

/-! ## The handlers -/

/-- What the application sent out: jobs to the queue and replies to chats. -/
@[ext] structure Outbox where
  jobs : List ImageProcessingJobPayload
  replies : List String

/-- What one update meets: Telegraf's test of a text for the command `start`, the answer of the
throttler's guard, and whether a call of the bot's API or of the queue fails. -/
structure Delivery where
  startCommand : String → Bool
  guard : Except Exception Unit
  reply : Option Fault
  add : Option Fault

/-- A call that sends something out. -/
def sending (fault : Option Fault) (send : Outbox → Outbox) : Procedure Outbox Exception Unit :=
  match fault with
  | none => .statement fun outbox => .ok ((), send outbox)
  | some .before => throw .other
  | some .after => do
      .statement fun outbox => .ok ((), send outbox)
      throw .other

def enqueueImageProcessingJob (fault : Option Fault) (payload : ImageProcessingJobPayload) :
    Procedure Outbox Exception Unit :=
  sending fault fun outbox => { outbox with jobs := outbox.jobs ++ [payload] }

/-- `context.reply` -/
def reply (fault : Option Fault) (text : String) : Procedure Outbox Exception Unit :=
  sending fault fun outbox => { outbox with replies := outbox.replies ++ [text] }

def DEFAULT_UNKNOWN_TELEGRAM_USER : String := "Unknown User"

def GREETING_MESSAGE : String := "Hello"

def buildDisplayName (firstName : String) (lastName username : Option String) : String :=
  let names := ([some firstName, lastName].filterMap id).filter (· ≠ "")
  let fullName := trimmed (" ".intercalate names)
  if fullName ≠ "" then fullName
  else if username.getD "" ≠ "" then username.getD ""
  else DEFAULT_UNKNOWN_TELEGRAM_USER

/-- `[...photo].sort((a, b) => b.width * b.height - a.width * a.height)`, which is stable -/
def sortedPhotos (photos : List PhotoSize) : List PhotoSize :=
  photos.insertionSort fun a b => b.area ≤ a.area

def payloadOf (user : User) (selectedPhoto : PhotoSize) : ImageProcessingJobPayload where
  telegramUserId := toString user.id
  telegramName := buildDisplayName user.first_name user.last_name user.username
  fileId := selectedPhoto.file_id

section Handlers

variable (delivery : Delivery) (context : Update)

def handlePhotoMessage : Procedure Outbox Exception Unit :=
  match context.contextMessage, context.contextFrom with
  | some ⟨_, .photo photos⟩, some user =>
      match sortedPhotos photos with
      -- the list is empty
      | [] => return ()
      | selectedPhoto :: _ =>
          if user.id = 0 then return ()
          else enqueueImageProcessingJob delivery.add (payloadOf user selectedPhoto)
  | _, _ => return ()

def handleTextMessage : Procedure Outbox Exception Unit :=
  match context.contextMessage with
  | some ⟨_, .text _⟩ => reply delivery.reply GREETING_MESSAGE
  | _ => return ()

def start : Procedure Outbox Exception Unit := reply delivery.reply "Welcome!"

def handleText : Procedure Outbox Exception Unit := handleTextMessage delivery context

def handlePhoto : Procedure Outbox Exception Unit := handlePhotoMessage delivery context

def handleEditedMessage : Procedure Outbox Exception Unit :=
  match context.contextEditedMessage with
  | some ⟨_, .photo photos⟩ =>
      if photos.length = 0 then return () else handlePhotoMessage delivery context
  | _ => return ()

/-! ## The bot -/

/-- A handler runs behind the global guard, and what either throws goes to the global filter. -/
def inTelegraf (handler : Procedure Outbox Exception Unit) : Procedure Outbox Exception Unit :=
  tryCatch (do Procedure.ofExcept delivery.guard; handler) fun exception =>
    match filterException exception .telegraf with
    -- it counts as handled once the filter returns
    | none => return ()
    -- there is no response object to send anything with
    | some _ => throw .other

/-- `Telegraf.handleUpdate`: the first handler that is registered for the update. -/
def handleUpdate : Procedure Outbox Exception Unit :=
  match context with
  | .message ⟨_, .text text⟩ =>
      if delivery.startCommand text then inTelegraf delivery (start delivery)
      else inTelegraf delivery (handleText delivery context)
  | .message ⟨_, .photo _⟩ => inTelegraf delivery (handlePhoto delivery context)
  | .edited_message _ => inTelegraf delivery (handleEditedMessage delivery context)
  | _ => return ()

structure Acknowledgement where
  ok : Bool

/-- `TelegramController.handleWebhook`, with the setting `TELEGRAM_WEBHOOK_SECRET` -/
def handleWebhook (expectedSecret : Option String) (secret : String) :
    Procedure Outbox Exception Acknowledgement := do
  if expectedSecret.getD "" ≠ "" ∧ secret ≠ expectedSecret.getD "" then
    throw (forbidden "Invalid Telegram webhook secret")
  else
    handleUpdate delivery context
    return ⟨true⟩

end Handlers

end BirrTrack.Telegram
