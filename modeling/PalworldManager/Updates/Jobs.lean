/-
# The update jobs

`UpdateJobExecutor` (`updates/jobs.py`): the check of versions, and the update
with its preventive backup, assisted shutdown, SteamCMD and verification.  The
notification that the disk is critical is left out, as all notifications are.
-/

import PalworldManager.Restores.Jobs
import PalworldManager.Shutdown.Jobs

namespace PalworldManager

open Effects Text

variable {L : Type}

/-- `_step_log_message`. -/
def stepLogMessage (step : String) : String :=
  ([("CHECKING", "Consulta de versão iniciada."),
    ("CHECKING_DISK", "Verificação de espaço livre iniciada."),
    ("VERIFYING", "Versão pública verificada novamente sob lock."),
    ("PREVENTIVE_BACKUP", "Backup pré-update iniciado."),
    ("PREVENTIVE_SAFE_SAVE", "Salvamento seguro solicitado para o backup pré-update."),
    ("PREVENTIVE_COPYING_WORLD", "Cópia do mundo para o backup pré-update iniciada."),
    ("PREVENTIVE_COPYING_DATABASE", "Snapshot do banco para o backup pré-update iniciado."),
    ("PREVENTIVE_BUILDING_MANIFEST", "Manifest do backup pré-update iniciado."),
    ("PREVENTIVE_COMPRESSING", "Compactação do backup pré-update iniciada."),
    ("PREVENTIVE_VALIDATING", "Validação do backup pré-update iniciada."),
    ("PREVENTIVE_PUBLISHING", "Publicação atômica do backup pré-update iniciada."),
    ("ASSISTED_SHUTDOWN", "Desligamento assistido iniciado."),
    ("UPDATING", "SteamCMD iniciado; cancelamento indisponível."),
    ("STARTING", "Inicialização e health check do Palworld iniciados."),
    ("VERIFYING_VERSION", "Validação final de versão e logs iniciada.")].lookup step).getD
    "Etapa do Update atualizada."

/-- `_append_log` of the update jobs, which loads the path of the log first. -/
def appendJobLog (j : JobId) (message : String) : Py L Unit := do
  let path ← query fun s => (s.getOne j).map Job.logPath
  if path.any (· ≠ "") then appendLog j message else pure ()

/-- `_checkpoint`. -/
def updateCheckpoint (j : JobId) (step : String) (progress : ℕ) (cancellable : Bool) :
    Py L Unit := do
  let read ← checkpoint j .updateCancelled step progress cancellable
  if read.step ≠ step then appendJobLog j (stepLogMessage step) else pure ()

/-- `_build_result`. -/
def SteamBuildInfo.result (b : SteamBuildInfo) : Dict :=
  [("installed_build_id", .str b.installedBuildId), ("available_build_id", .str b.availableBuildId),
   ("available_at", b.availableAt.elim .null .str), ("update_available", .bool b.updateAvailable)]

/-- `_merge_result`. -/
def mergeResult (j : JobId) (values : Dict) : Py L Unit :=
  updateJob j fun job => { job with result := some (values ++ job.data) }

/-- `_merge_result` of the identifier of the preventive backup. -/
def reportPreventive (j : JobId) (id : ℕ) : Py L Unit :=
  session
    (fun s => (s.getOne j).map fun _ => ((), s.modifyJob j fun job =>
      { job with result := some ([("preventive_backup_record_id", .int id)] ++ job.data) }))
    fun _ => .reported j id

/-- The columns of an update that failed. -/
def Job.failUpdate (category message : String) (requiresManualReview : Bool)
    (preventiveRecordId : Option ℕ) (job : Job) : Job :=
  { job with
    status := .failed
    step := "FAILED"
    progress := 100
    isCancellable := false
    result := some
      ([("error", .str category), ("message", .str message),
        ("preventive_backup_record_id", preventiveRecordId.elim .null fun i => .int i),
        ("requires_manual_review", .bool requiresManualReview)] ++ job.data) }

/-- `_fail`. -/
def failUpdate (j : JobId) (category message : String) (requiresManualReview : Bool)
    (preventiveRecordId : Option ℕ) : Py L Unit := do
  finishJob j (Job.failUpdate category message requiresManualReview preventiveRecordId)
  appendJobLog j ("Falha controlada: " ++ category ++ ".")

/-- The columns of a version check that succeeded. -/
def Job.finishCheck (result : Dict) (job : Job) : Job :=
  { job with
    status := .succeeded
    step := "COMPLETED"
    progress := 100
    isCancellable := false
    result := some result }

/-- The steps of `_execute_check` between its `try` and its handler. -/
def runUpdateCheck (j : JobId) : Py L Unit := do
  updateCheckpoint j "CHECKING_DISK" 15 false
  let freeBytes ← ofReply (← ask j .freeBytes)
  let settings ← query loadManagerSettings
  updateCheckpoint j "CHECKING" 35 false
  let build ← ofReply (← ask j .steamCheck)
  finishJob j (Job.finishCheck
    ([("disk_free_bytes", .int freeBytes),
      ("disk_critical", .bool (freeBytes < settings.diskCriticalGb.1 * 1024 ^ 3))] ++ build.result))
  appendJobLog j "Versões instalada e pública verificadas."

/-- `_execute_check`. -/
def executeUpdateCheck (j : JobId) : Py L Unit :=
  Exec.tryCatch (runUpdateCheck j) fun _ =>
    failUpdate j "UPDATE_CHECK_FAILED" "Não foi possível verificar as versões pelo SteamCMD."
      false none

/-- The request that `_load_update_request` returns. -/
structure UpdateRequest where
  data : Dict
  countdownMinutes : ℤ
  stopTimeout : ℤ
  startTimeout : ℤ
  diskCriticalGb : ℤ
  deriving DecidableEq, Repr

/-- The checks of `_load_update_request` on a job's result. -/
def updateRequest (data : Dict) : Except Exn UpdateRequest := do
  let _ ← requiredBuildId data "requested_installed_build_id"
  let _ ← requiredBuildId data "requested_available_build_id"
  let minutes ← requiredInt data "countdown_minutes" 0 10
  let stop ← requiredInt data "stop_timeout_seconds" 1 300
  let start ← requiredInt data "start_timeout_seconds" 1 600
  let critical ← requiredInt data "disk_critical_gb" 1 1024
  pure ⟨data, minutes, stop, start, critical⟩

/-- `_load_update_request`. -/
def loadUpdateRequest (j : JobId) (s : World) : Except Exn UpdateRequest := do
  let job ← s.getOne j
  if job.kind ≠ .update ∨ job.status ≠ .running then
    .error (.fault .value)
  else
    updateRequest job.data

/-- The local variables of `_execute_update` that its handlers read, and the
attribute `irreversible_started` of its countdown control. -/
structure UpdateLocals where
  preventive : Option BackupArtifact
  preventiveRecordId : Option ℕ
  criticalStarted : Bool
  irreversibleStarted : Bool
  deriving DecidableEq

/-- `DatabaseUpdateCountdownControl`. -/
def updateCountdownControl (j : JobId) : CountdownControl UpdateLocals where
  update := countdownUpdate j 50 15 false
  markIrreversible := do
    let directive ← markIrreversible j "STOPPING" 68
    if directive = .continue then
      Exec.assign fun ℓ => { ℓ with irreversibleStarted := true }
      pure directive
    else
      pure directive

/-- The steps that make and register the preventive backup. -/
def makePreUpdateBackup (j : JobId) : Py UpdateLocals Unit := do
  updateCheckpoint j "PREVENTIVE_BACKUP" 12 true
  let artifact ← Exec.tryCatch
    (createBackup j fun step progress cancellable =>
      updateCheckpoint j ("PREVENTIVE_" ++ step) (min 47 (12 + progress / 3)) cancellable)
    fun e =>
      if e = .updateCancelled then Exec.raise e
      else Exec.raise (.updateExecution "PREVENTIVE_BACKUP_FAILED"
        "O backup pré-update não pôde ser criado e validado.")
  Exec.assign fun ℓ => { ℓ with preventive := some artifact }
  let (id, records) ← flushArtifact j artifact
  Exec.assign fun ℓ => { ℓ with preventiveRecordId := some id }
  let retention ← query configuredLocalRetention
  let deleted ← applyLocalRetention j records retention [id]
  commitSession j (commitRegistration artifact j id deleted) fun _ => .record j id
  reportPreventive j id

/-- The assisted shutdown of an update, which notes in either case how far it
came. -/
def shutDownForUpdate (j : JobId) (request : UpdateRequest) : Py UpdateLocals Unit := do
  updateCheckpoint j "ASSISTED_SHUTDOWN" 50 true
  let shutdown ← Exec.tryCatch
    (assistedShutdown j request.countdownMinutes request.stopTimeout (updateCountdownControl j))
    fun e => do
      Exec.assign fun ℓ => { ℓ with criticalStarted := ℓ.irreversibleStarted }
      Exec.raise e
  Exec.assign fun ℓ => { ℓ with criticalStarted := ℓ.irreversibleStarted }
  Exec.raiseIf (shutdown.outcome = .cancelled) .updateCancelled
  Exec.raiseIf (shutdown.outcome ≠ .succeeded) (.updateExecution "STOP_FAILED"
    "O Palworld não confirmou o estado offline; revise o estado manualmente.")

/-- The columns of an update that succeeded. -/
def Job.finishUpdate (request : UpdateRequest) (before after : SteamBuildInfo)
    (preventiveRecordId : Option ℕ) (job : Job) : Job :=
  job.finishCheck
    ([("installed_build_id", .str after.installedBuildId),
      ("available_build_id", .str after.availableBuildId),
      ("available_at", after.availableAt.elim .null .str),
      ("previous_build_id", .str before.installedBuildId), ("update_available", .bool false),
      ("preventive_backup_record_id", preventiveRecordId.elim .null fun i => .int i),
      ("requires_manual_review", .bool false),
      ("message", .str "Update concluído e Palworld ONLINE.")] ++ request.data)

/-- The steps of an update from SteamCMD on, up to the check of the logs: the
version after it. -/
def applyUpdate [Unicode] (j : JobId) (request : UpdateRequest) : Py UpdateLocals SteamBuildInfo := do
  updateCheckpoint j "UPDATING" 72 false
  Exec.tryCatch (do ofReply (← ask j .applyUpdate)) fun e =>
    if e = .fault .steamCmd then
      Exec.raise (.updateExecution "STEAMCMD_FAILED"
        "O SteamCMD não confirmou a atualização; o servidor permanece parado para revisão.")
    else Exec.raise e
  updateCheckpoint j "STARTING" 84 false
  let startRequestedAt : ℕ ← ask j .now
  let start ← ofReply (← ask j (.lifecycle .start request.startTimeout))
  Exec.raiseIf (start.succeeded = false) (.updateExecution "START_FAILED"
    "O Palworld não voltou ao estado ONLINE após o Update.")
  updateCheckpoint j "VERIFYING_VERSION" 93 false
  let after ← ofReply (← ask j .steamCheck)
  Exec.raiseIf (after.installedBuildId ≠ after.availableBuildId)
    (.updateExecution "VERSION_MISMATCH"
      "A versão instalada não corresponde à branch pública após o Update.")
  verifyNoCriticalLogs j startRequestedAt
    (.updateExecution "POST_UPDATE_LOGS_UNAVAILABLE"
      "Os logs críticos não puderam ser verificados após o Update.")
    (.updateExecution "POST_UPDATE_CRITICAL_LOG"
      "O Palworld registrou erro crítico após o Update.")
  pure after

/-- `_complete`. -/
def completeUpdate (j : JobId) (request : UpdateRequest) (before after : SteamBuildInfo) :
    Py UpdateLocals Unit := do
  let ℓ ← Exec.locals
  finishJob j (Job.finishUpdate request before after ℓ.preventiveRecordId)
  appendJobLog j "Update validado; Palworld está ONLINE."

/-- `_complete_no_update`. -/
def completeNoUpdate (j : JobId) (request : UpdateRequest) (build : SteamBuildInfo) : Py L Unit :=
  finishJob j (Job.finishCheck
    ([("requires_manual_review", .bool false),
      ("message", .str "A versão instalada já corresponde à branch pública.")] ++
      build.result ++ request.data))

/-- The steps of `_execute_update` between its `try` and its handlers. -/
def runUpdate [Unicode] (j : JobId) (request : UpdateRequest) : Py UpdateLocals Unit := do
  updateCheckpoint j "CHECKING_DISK" 3 true
  let freeBytes ← ofReply (← ask j .freeBytes)
  Exec.raiseIf ((freeBytes : ℤ) < request.diskCriticalGb * 1024 ^ 3)
    (.updateExecution "DISK_CRITICAL"
      "O Update foi bloqueado porque o espaço livre está em nível crítico.")
  updateCheckpoint j "VERIFYING" 8 true
  let before ← ofReply (← ask j .steamCheck)
  mergeResult j before.result
  if before.updateAvailable then
    makePreUpdateBackup j
    shutDownForUpdate j request
    let after ← applyUpdate j request
    completeUpdate j request before after
  else
    completeNoUpdate j request before

/-- `_cancel`. -/
def cancelUpdate (j : JobId) (request : UpdateRequest) (preventiveRecordId : Option ℕ) :
    Py L Unit := do
  finishJob j (Job.cancel
    ([("preventive_backup_record_id", preventiveRecordId.elim .null fun i => .int i),
      ("requires_manual_review", .bool false),
      ("message", .str "Update cancelado antes do Stop.")] ++ request.data))
  appendJobLog j "Update cancelado em ponto seguro."

/-- The handlers of `_execute_update`. -/
def handleUpdate (j : JobId) (request : UpdateRequest) (e : Exn) : Py UpdateLocals Unit := do
  let ℓ ← Exec.locals
  match e with
  | .updateCancelled => cancelUpdate j request ℓ.preventiveRecordId
  | .updateExecution category message =>
      failUpdate j category message ℓ.criticalStarted ℓ.preventiveRecordId
  | _ =>
      failUpdate j "UPDATE_FAILED" "O Update falhou de forma controlada." ℓ.criticalStarted
        ℓ.preventiveRecordId

/-- The `finally` clause of `_execute_update`. -/
def cleanUpUpdate (j : JobId) : Py UpdateLocals Unit := do
  let ℓ ← Exec.locals
  removePreventive j ℓ.preventive ℓ.preventiveRecordId

/-- `_execute_update`. -/
def executeUpdate [Unicode] (j : JobId) : Py L Unit :=
  Exec.scope (⟨none, none, false, false⟩ : UpdateLocals) do
    let request ← Exec.tryCatch (do pure (some (← query (loadUpdateRequest j)))) fun _ => do
      failUpdate j "INVALID_UPDATE_JOB"
        "O job de Update possui dados inválidos e não foi executado." false none
      pure none
    match request with
    | none => pure ()
    | some request =>
        Exec.ensuring (Exec.tryCatch (runUpdate j request) (handleUpdate j request))
          (cleanUpUpdate j)

/-- `UpdateJobExecutor.execute`. -/
def executeUpdateJob [Unicode] (j : JobId) : Py L Unit := do
  let kind ← query fun s => (s.getOne j).map Job.kind
  match kind with
  | .updateCheck => executeUpdateCheck j
  | .update => executeUpdate j
  | _ => Exec.raise (.fault .value)

/-- `fail_unexpected`. -/
def failUnexpectedUpdate (j : JobId) : Py L Unit := do
  let job ← query fun s => s.getOne j
  if job.status.isActive then
    failUpdate j "UNEXPECTED_UPDATE_FAILURE" "O Update falhou de forma controlada."
      (job.kind == .update && !job.isCancellable) none
  else
    pure ()

end PalworldManager
