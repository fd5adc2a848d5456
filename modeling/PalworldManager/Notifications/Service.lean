/-
# Notifications

`notifications/service.py` and the error kinds of `integrations/discord.py`: the table of
events to deliver, and the transactions over it.  A moment is a number of microseconds.  All
callers pass a supported type, so that the types are an enumeration here, and neither the
check of `enqueue_discord_notification` nor the text for other types is left.
-/

import PalworldManager.Effects.Table

namespace PalworldManager

open Effects

/-- `SUPPORTED_DISCORD_EVENT_TYPES`. -/
inductive NotificationType where
  | discordTest
  | backupFailed
  | diskCritical
  | driveFailed
  | forcedShutdown
  | loginBlocked
  | operationInterrupted
  | restoreCompleted
  | restoreFailed
  | serverCrash
  | serverRecovered
  | updateCompleted
  | updateFailed
  deriving DecidableEq, Repr

inductive NotificationStatus where
  | pending
  | sending
  | sent
  | failed
  deriving DecidableEq, Repr

/-- `DiscordDeliveryErrorKind`. -/
inductive DiscordErrorKind where
  | notConfigured
  | rateLimited
  | timeout
  | unavailable
  | interrupted
  | rejected
  | invalidResponse
  deriving DecidableEq, Repr

/-- Whether a kind is in `TRANSIENT_DISCORD_ERRORS`. -/
def DiscordErrorKind.transient : DiscordErrorKind → Bool
  | .rateLimited | .timeout | .unavailable => true
  | _ => false

/-- `NOTIFICATION_CHANNEL_DISCORD`. -/
def notificationChannelDiscord : String := "DISCORD"

/-- `MAX_NOTIFICATION_ATTEMPTS`. -/
def maxNotificationAttempts : ℕ := 3

/-- `NOTIFICATION_RETRY_DELAYS`. -/
def notificationRetryDelays : List ℕ := [5000000, 30000000]

/-- A row of `notification_events`. -/
structure NotificationEvent where
  eventType : NotificationType
  channel : String
  status : NotificationStatus
  createdAt : ℕ
  updatedAt : ℕ
  jobId : Option ℕ
  attempts : ℕ
  nextAttemptAt : Option ℕ
  deliveredAt : Option ℕ
  lastError : Option DiscordErrorKind
  deriving DecidableEq, Repr

/-- `EVENT_TEXT`. -/
def eventText : NotificationType → String × String
  | .discordTest => ("Teste de notificação",
      "A integração do Palworld Manager com o Discord está funcionando.")
  | .backupFailed => ("Falha no backup automático", "O backup diário não foi concluído.")
  | .diskCritical => ("Espaço em disco crítico",
      "Uma operação foi bloqueada por falta de espaço.")
  | .driveFailed => ("Falha no Google Drive", "Uma operação de backup remoto falhou.")
  | .forcedShutdown => ("Encerramento forçado", "Uma ação forçada foi executada no Palworld.")
  | .loginBlocked => ("Login bloqueado", "O limite de tentativas de acesso foi atingido.")
  | .operationInterrupted => ("Operação crítica interrompida",
      "O worker foi reiniciado durante uma operação que exige revisão.")
  | .restoreCompleted => ("Restore concluído", "O Restore terminou e o Palworld está saudável.")
  | .restoreFailed => ("Falha no Restore", "O Restore não pôde ser concluído.")
  | .serverCrash => ("Falha do servidor", "O Palworld não se recuperou automaticamente.")
  | .serverRecovered => ("Servidor recuperado", "O Palworld se recuperou após uma falha.")
  | .updateCompleted => ("Update concluído", "O Update terminou e o Palworld está saudável.")
  | .updateFailed => ("Falha no Update", "O Update não pôde ser concluído.")

/-- What `strftime("%Y-%m-%d %H:%M:%S UTC")` prints of a moment. -/
class Calendar where
  strftime : ℕ → String

structure DiscordMessage where
  content : String
  deriving DecidableEq, Repr

/-- `render_discord_message`. -/
def renderDiscordMessage [Calendar] (id : ℕ) (event : NotificationEvent) : DiscordMessage :=
  let (title, description) := eventText event.eventType
  let references := ["Evento #" ++ toString id] ++
    event.jobId.toList.map (fun j => "Job #" ++ toString j) ++ [Calendar.strftime event.createdAt]
  ⟨"**Palworld Manager — " ++ title ++ "**\n" ++ description ++ "\n" ++
    " · ".intercalate references⟩

section Transactions

variable (events : Table NotificationEvent)

/-- The row that `enqueue_discord_notification` adds; the database fills in `updated_at`. -/
def newNotification (eventType : NotificationType) (jobId : Option ℕ) (createdAt updatedAt : ℕ) :
    NotificationEvent where
  eventType
  channel := notificationChannelDiscord
  status := .pending
  createdAt
  updatedAt
  jobId
  attempts := 0
  nextAttemptAt := none
  deliveredAt := none
  lastError := none

/-- `enqueue_discord_notification`. -/
def enqueueDiscordNotification (eventType : NotificationType) (jobId : Option ℕ)
    (createdAt updatedAt : ℕ) : Table NotificationEvent :=
  events.add (newNotification eventType jobId createdAt updatedAt)

/-- Whether an event is a test that is still to be delivered. -/
def NotificationEvent.isActiveTest (event : NotificationEvent) : Bool :=
  event.eventType == .discordTest && event.channel == notificationChannelDiscord &&
    (event.status == .pending || event.status == .sending)

/-- `enqueue_discord_test`: at most one test is active. -/
def enqueueDiscordTest (createdAt updatedAt : ℕ) : Table NotificationEvent :=
  if events.rows.any fun r => r.2.isActiveTest then events
  else enqueueDiscordNotification events .discordTest none createdAt updatedAt

/-- The conditions of `_eligible_notification`. -/
def NotificationEvent.isEligible (now : ℕ) (event : NotificationEvent) : Bool :=
  event.channel == notificationChannelDiscord && event.status == .pending &&
    decide (event.attempts < maxNotificationAttempts) &&
    event.nextAttemptAt.all fun at' => decide (at' ≤ now)

/-- The order of `_eligible_notification`. -/
def EarlierEvent (x y : ℕ × NotificationEvent) : Prop :=
  x.2.createdAt < y.2.createdAt ∨ (x.2.createdAt = y.2.createdAt ∧ x.1 ≤ y.1)

instance : DecidableRel EarlierEvent := fun _ _ =>
  inferInstanceAs (Decidable (_ ∨ (_ ∧ _)))

/-- `_eligible_notification`. -/
def eligibleNotification (now : ℕ) : Option ℕ :=
  ((events.select (fun _ event => event.isEligible now) EarlierEvent).head?).map Prod.fst

/-- The columns that a claim sets. -/
def NotificationEvent.claim (now : ℕ) (event : NotificationEvent) : NotificationEvent :=
  { event with
    status := .sending
    attempts := event.attempts + 1
    updatedAt := now
    nextAttemptAt := none
    deliveredAt := none
    lastError := none }

/-- `claim_next_notification`: one statement, which returns the row it updates. -/
def claimNextNotification (now : ℕ) :
    Option (ℕ × NotificationEvent) × Table NotificationEvent :=
  match eligibleNotification events now with
  | none => (none, events)
  | some id =>
      let events' := events.mapRows fun i event =>
        if i = id ∧ event.status = .pending then event.claim now else event
      ((events'.get id).map fun event => (id, event), events')

/-- The columns that a reconciliation sets. -/
def NotificationEvent.reconcile (now : ℕ) (event : NotificationEvent) : NotificationEvent :=
  if event.channel = notificationChannelDiscord ∧ event.status = .sending then
    if event.attempts < maxNotificationAttempts then
      { event with
        updatedAt := now
        status := .pending
        nextAttemptAt := some now
        lastError := some .interrupted }
    else
      { event with
        updatedAt := now
        status := .failed
        nextAttemptAt := none
        lastError := some .interrupted }
  else event

/-- `NotificationReconciliation`. -/
structure NotificationReconciliation where
  requeued : ℕ
  failed : ℕ
  deriving DecidableEq, Repr

/-- `reconcile_sending_notifications`. -/
def reconcileSendingNotifications (now : ℕ) :
    NotificationReconciliation × Table NotificationEvent :=
  let sending := events.rows.filter fun r =>
    r.2.channel == notificationChannelDiscord && r.2.status == .sending
  (⟨sending.countP fun r => decide (r.2.attempts < maxNotificationAttempts),
      sending.countP fun r => !decide (r.2.attempts < maxNotificationAttempts)⟩,
    events.mapRows fun _ event => event.reconcile now)

/-- Why the result of an attempt is not recorded. -/
inductive FinishError where
  | noResultFound
  | indexError
  deriving DecidableEq, Repr

/-- `t[i]`, where a negative index counts from the end. -/
def pyIndex {α : Type} (t : List α) (i : ℤ) : Option α :=
  if 0 ≤ i then t[i.toNat]? else if -t.length ≤ i then t[(t.length + i).toNat]? else none

/-- The columns that `_finish_success` sets. -/
def NotificationEvent.succeed (deliveredAt : ℕ) (event : NotificationEvent) : NotificationEvent :=
  if event.status ≠ .sending then event
  else
    { event with
      status := .sent
      updatedAt := deliveredAt
      deliveredAt := some deliveredAt
      nextAttemptAt := none
      lastError := none }

/-- The index of the retry delay, where `_finish_failure` has the event sent again. -/
def NotificationEvent.delayIndex (kind : DiscordErrorKind) (event : NotificationEvent) :
    Option ℤ :=
  if kind.transient && decide (event.attempts < maxNotificationAttempts) then
    some ((event.attempts : ℤ) - 1)
  else none

/-- The columns that `_finish_failure` sets. -/
def NotificationEvent.fail (kind : DiscordErrorKind) (failedAt : ℕ) (event : NotificationEvent) :
    Except FinishError NotificationEvent :=
  if event.status ≠ .sending then .ok event
  else
    let event := { event with updatedAt := failedAt, deliveredAt := none, lastError := some kind }
    match event.delayIndex kind with
    | some i =>
        match pyIndex notificationRetryDelays i with
        | some delay =>
            .ok { event with status := .pending, nextAttemptAt := some (failedAt + delay) }
        | none => .error .indexError
    | none => .ok { event with status := .failed, nextAttemptAt := none }

/-- `_finish_success`. -/
def finishSuccess (id deliveredAt : ℕ) : Except FinishError (Table NotificationEvent) :=
  match events.get id with
  | none => .error .noResultFound
  | some _ => .ok (events.modify id fun event => event.succeed deliveredAt)

/-- `_finish_failure`. -/
def finishFailure (id : ℕ) (kind : DiscordErrorKind) (failedAt : ℕ) :
    Except FinishError (Table NotificationEvent) :=
  match events.get id with
  | none => .error .noResultFound
  | some event => do
      let event ← event.fail kind failedAt
      pure (events.modify id fun _ => event)

end Transactions

end PalworldManager
