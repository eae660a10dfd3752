import BirrTrack.Processing.Retries

/-! # Where the bot token goes

The download URL of an image contains the bot token, and it becomes the image URL of the row.
Two tokens lead to the same observations only where no receipt is recorded.
-/

namespace BirrTrack.Processing

open Js Transactions Database

/-- The server under another value of `TELEGRAM_BOT_TOKEN`. -/
def Server.withToken (server : Server) (token : String) : Server :=
  { server with config := { server.config with TELEGRAM_BOT_TOKEN := some token } }

/-- Telegram gives the same getFile replies and the same file bytes for both tokens. -/
structure SameReplies (services : Services) (token token' : String) : Prop where
  getFile : ∀ fileId,
    services.getFile (trimmed token) fileId = services.getFile (trimmed token') fileId
  download : ∀ filePath, services.download (telegramFileUrl (trimmed token) filePath) =
    services.download (telegramFileUrl (trimmed token') filePath)

/-- A client of the API and a subscriber to the events observe the same. -/
structure Indistinguishable (first second : World) : Prop where
  rows : first.db.transactions = second.db.transactions
  events : first.events = second.events
  items : ∀ reader order query,
    ((findAll reader order query).run first.db).1 = ((findAll reader order query).run second.db).1
  exported : ∀ reader order query, ((exportRows reader order query).run first.db).1 =
    ((exportRows reader order query).run second.db).1

theorem Indistinguishable.refl (world : World) : Indistinguishable world world :=
  ⟨rfl, rfl, fun _ _ _ => rfl, fun _ _ _ => rfl⟩

variable {server : Server} {attempt : Attempt} {payload : ImageProcessingJobPayload}
  {world : World} {token token' : String}

theorem telegramFileUrl_injective {filePath : String}
    (same : telegramFileUrl token filePath = telegramFileUrl token' filePath) : token = token' := by
  unfold telegramFileUrl at same
  have front := (String.append_left_inj _).mp ((String.append_left_inj _).mp same)
  exact (String.append_right_inj _).mp front

/-- The URL of an image is made of the token and the path that getFile answered. -/
theorem resolve_eq_ok {url fileId : String} {config : Config}
    (resolved : resolveTelegramFileDownloadUrl { config with TELEGRAM_BOT_TOKEN := some token }
      attempt fileId = .ok url) :
    ∃ reply,
      answered (attempt.faults .getFile)
        (attempt.services.getFile (trimmed token) (trimmed fileId)) = .ok reply ∧
      url = telegramFileUrl (trimmed token) (reply.filePath.getD "") := by
  unfold resolveTelegramFileDownloadUrl at resolved
  simp only [Option.map_some, Option.getD_some] at resolved
  split at resolved
  next => cases resolved
  next =>
    split at resolved
    next => cases resolved
    next =>
      obtain ⟨reply, answer, result⟩ := Procedure.bind_eq_ok.mp resolved
      refine ⟨reply, answer, ?_⟩
      split at result
      next => cases result; rfl
      next => cases result

/-- A receipt carries the URL of its image. -/
theorem imageUrl_of_receiptOf {receipt : CreateTransactionDto}
    (read : receiptOf server attempt payload = .ok (some receipt)) :
    ∃ url, resolveTelegramFileDownloadUrl server.config attempt payload.fileId = .ok url ∧
      receipt.imageUrl = .value url := by
  obtain ⟨url, resolved, read⟩ := Procedure.bind_eq_ok.mp read
  obtain ⟨imageBuffer, -, read⟩ := Procedure.bind_eq_ok.mp read
  obtain ⟨ocrText, -, read⟩ := Procedure.bind_eq_ok.mp read
  obtain ⟨parsed, -, read⟩ := Procedure.bind_eq_ok.mp read
  obtain ⟨fields, -, rfl⟩ := Option.map_eq_some_iff.mp (Except.ok.inj read)
  exact ⟨url, resolved, rfl⟩

/-- The image URL of a stored row contains the token. -/
theorem imageUrl_of_storedRow {row : TransactionRow}
    (stored : storedRow (server.withToken token) payload attempt = some row) :
    ∃ reply,
      answered (attempt.faults .getFile)
        (attempt.services.getFile (trimmed token) (trimmed payload.fileId)) = .ok reply ∧
      row.imageUrl.map Text.value =
        some (telegramFileUrl (trimmed token) (reply.filePath.getD "")) := by
  obtain ⟨receipt, read, records⟩ := storedRow_eq_some.mp stored
  obtain ⟨url, resolved, imageUrl⟩ := imageUrl_of_receiptOf read
  obtain ⟨reply, answer, rfl⟩ := resolve_eq_ok resolved
  refine ⟨reply, answer, ?_⟩
  obtain ⟨-, -, -, -, -, -, -, image⟩ := toRow_eq_some.mp records.stored
  have given : (receipt.toNew (server.withToken token).reader).imageUrl =
      some (telegramFileUrl (trimmed token) (reply.filePath.getD "")) := by
    simp only [CreateTransactionDto.toNew, imageUrl, Property.toOption]
  rw [given, nullableText] at image
  obtain ⟨text, converted, same⟩ := Option.map_eq_some_iff.mp image
  rw [← same, Option.map_some, Text.ofString_eq_some converted]

/-- The job reads no more of the token than its trimmed text. -/
theorem run_withToken_congr (same : trimmed token = trimmed token') (world : World) :
    (processImageJob (server.withToken token) attempt payload).run world =
      (processImageJob (server.withToken token') attempt payload).run world := by
  have resolved : resolveTelegramFileDownloadUrl (server.withToken token).config attempt
      payload.fileId =
        resolveTelegramFileDownloadUrl (server.withToken token').config attempt payload.fileId := by
    unfold resolveTelegramFileDownloadUrl Server.withToken
    dsimp only
    rw [Option.map_some, Option.map_some, same]
  have read : receiptOf (server.withToken token) attempt payload =
      receiptOf (server.withToken token') attempt payload := by
    unfold receiptOf
    rw [resolved]
    rfl
  rw [run_processImageJob, run_processImageJob, read]
  rfl

/-- The world after a job. -/
def worldAfter (server : Server) (attempt : Attempt) (payload : ImageProcessingJobPayload)
    (world : World) : World :=
  ((processImageJob server attempt payload).run world).2

theorem rows_worldAfter {row : TransactionRow}
    (stored : storedRow server payload attempt = some row)
    (fresh : attempt.generated.id ∉ world.db.transactions.map TransactionRow.id) :
    ∃ receipt, (worldAfter server attempt payload world).db.transactions =
      world.db.transactions ++ [recorded receipt row world.db] := by
  obtain ⟨receipt, result, after, -, -, ran, rows, -⟩ := run_of_stored stored fresh
  exact ⟨receipt, by rw [worldAfter, ran, rows]⟩

theorem worldAfter_eq_self (unstored : storedRow server payload attempt = none) (world : World) :
    worldAfter server attempt payload world = world := by
  obtain ⟨result, ran, -⟩ := run_of_not_stored unstored world
  rw [worldAfter, ran]

/-- Two rows with the same image URL were stored under the same trimmed token. -/
theorem trimmed_eq_of_imageUrl {row row' : TransactionRow}
    (replies : SameReplies attempt.services token token')
    (stored : storedRow (server.withToken token) payload attempt = some row)
    (stored' : storedRow (server.withToken token') payload attempt = some row')
    (same : row.imageUrl = row'.imageUrl) : trimmed token = trimmed token' := by
  obtain ⟨reply, answer, url⟩ := imageUrl_of_storedRow stored
  obtain ⟨reply', answer', url'⟩ := imageUrl_of_storedRow stored'
  rw [replies.getFile, answer'] at answer
  cases answer
  rw [same, url', Option.some_inj] at url
  exact (telegramFileUrl_injective url).symm

/-- The observations after a job are the same for two tokens exactly when the tokens do not differ
after trimming or no row gets as far as being stored. -/
theorem indistinguishable_iff (replies : SameReplies attempt.services token token')
    (fresh : attempt.generated.id ∉ world.db.transactions.map TransactionRow.id) :
    Indistinguishable (worldAfter (server.withToken token) attempt payload world)
        (worldAfter (server.withToken token') attempt payload world) ↔
      trimmed token = trimmed token' ∨
        (storedRow (server.withToken token) payload attempt = none ∧
          storedRow (server.withToken token') payload attempt = none) := by
  refine ⟨?_, ?_⟩
  · intro same
    have rows := same.rows
    cases stored : storedRow (server.withToken token) payload attempt with
    | none =>
        cases stored' : storedRow (server.withToken token') payload attempt with
        | none => exact Or.inr ⟨rfl, rfl⟩
        | some row' =>
            obtain ⟨receipt', added'⟩ := rows_worldAfter stored' fresh
            rw [worldAfter_eq_self stored, added'] at rows
            simp at rows
    | some row =>
        cases stored' : storedRow (server.withToken token') payload attempt with
        | none =>
            obtain ⟨receipt, added⟩ := rows_worldAfter stored fresh
            rw [worldAfter_eq_self stored', added] at rows
            simp at rows
        | some row' =>
            obtain ⟨receipt, added⟩ := rows_worldAfter stored fresh
            obtain ⟨receipt', added'⟩ := rows_worldAfter stored' fresh
            rw [added, added', List.append_cancel_left_eq, List.singleton_inj] at rows
            have images : (recorded receipt row world.db).imageUrl =
                (recorded receipt' row' world.db).imageUrl := by
              rw [rows]
            exact Or.inl (trimmed_eq_of_imageUrl replies stored stored' images)
  · rintro (same | ⟨unstored, unstored'⟩)
    · rw [worldAfter, run_withToken_congr same]
      exact .refl _
    · rw [worldAfter_eq_self unstored, worldAfter_eq_self unstored']
      exact .refl _

theorem sameReplies_sample : SameReplies sampleServices "123:abc" "456:def" :=
  ⟨fun _ => rfl, fun _ => rfl⟩

/-- The sample receipt under two tokens. -/
theorem sample_indistinguishable_iff :
    Indistinguishable
        (worldAfter (sampleServer.withToken "123:abc") (sampleAttempt "receipt" noFaults)
          samplePayload emptyWorld)
        (worldAfter (sampleServer.withToken "456:def") (sampleAttempt "receipt" noFaults)
          samplePayload emptyWorld) ↔
      trimmed "123:abc" = trimmed "456:def" ∨
        (storedRow (sampleServer.withToken "123:abc") samplePayload
            (sampleAttempt "receipt" noFaults) = none ∧
          storedRow (sampleServer.withToken "456:def") samplePayload
            (sampleAttempt "receipt" noFaults) = none) :=
  @indistinguishable_iff sampleServer (sampleAttempt "receipt" noFaults) samplePayload
    emptyWorld _ _ sameReplies_sample List.not_mem_nil

/-- The stored image URL tells two tokens apart although Telegram answers the same. -/
theorem sample_distinguishable :
    trimmed "123:abc" ≠ "" ∧ trimmed "456:def" ≠ "" ∧
      SameReplies sampleServices "123:abc" "456:def" ∧
      ¬ Indistinguishable
        (worldAfter (sampleServer.withToken "123:abc") (sampleAttempt "receipt" noFaults)
          samplePayload emptyWorld)
        (worldAfter (sampleServer.withToken "456:def") (sampleAttempt "receipt" noFaults)
          samplePayload emptyWorld) := by
  refine ⟨by decide +kernel, by decide +kernel, sameReplies_sample, ?_⟩
  intro same
  have rows := same.rows
  revert rows
  decide +kernel

end BirrTrack.Processing
