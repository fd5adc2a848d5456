/-
# The restore jobs

`LocalRestoreJobExecutor` (`restores/jobs.py`), for a local and for a remote
backup.  What `prepare`, `prepare_remote` and `apply` of the restore service do
to the file system is outside; that they return or raise is what the job goes by.
-/

import PalworldManager.Backups.Jobs
import PalworldManager.Drive.Storage
import PalworldManager.Logs

namespace PalworldManager

open Effects Text

variable {L : Type}

/-- `RestoreError`. -/
abbrev restoreError (category message : String) : Exn := .fault (.restore category message)

/-- The request that `_load_request` returns. -/
structure RestoreRequest where
  backupRecordId : ℤ
  sourceFilename : String
  sourceLocation : Location
  stopTimeout : ℤ
  startTimeout : ℤ
  deriving DecidableEq, Repr

/-- The request as a JSON object. -/
def RestoreRequest.dict (r : RestoreRequest) : Dict :=
  [("backup_record_id", .int r.backupRecordId), ("source_filename", .str r.sourceFilename),
   ("source_location", .str r.sourceLocation.text), ("stop_timeout_seconds", .int r.stopTimeout),
   ("start_timeout_seconds", .int r.startTimeout)]

/-- The checks of `_load_request` on a job. -/
def Job.restoreRequest (job : Job) : Option RestoreRequest :=
  match job.kind with
  | .restore location =>
      match (job.data.value "backup_record_id").asInt, (job.data.value "source_filename").asStr,
        (job.data.lookup "source_location").getD (.str "LOCAL"),
        (job.data.value "stop_timeout_seconds").asInt,
        (job.data.value "start_timeout_seconds").asInt with
      | some recordId, some filename, .str text, some stop, some start =>
          if text = location.text then some ⟨recordId, filename, location, stop, start⟩ else none
      | _, _, _, _, _ => none
  | _ => none

/-- `_load_request`. -/
def loadRestoreRequest (j : JobId) (s : World) : Except Exn RestoreRequest := do
  let job ← s.getOne j
  if job.status ≠ .running then
    .error (.fault .value)
  else match job.restoreRequest with
  | some request => .ok request
  | none => .error (.fault .value)

/-- The local variables of `execute` that its handlers read. -/
structure RestoreLocals where
  preventive : Option BackupArtifact
  preventiveRecordId : Option ℕ
  destructiveStarted : Bool
  deriving DecidableEq

/-- The columns that a checkpoint of a restore writes. -/
def Job.restoreCheckpoint (step : String) (progress : ℕ) (destructiveStarted : Bool) (job : Job) :
    Job :=
  { job with
    result := some ([("destructive_started", .bool destructiveStarted),
      ("requires_manual_review", .bool destructiveStarted)] ++ job.data)
    step := step
    progress := progress
    isCancellable := false }

/-- `_checkpoint`. -/
def restoreCheckpoint (j : JobId) (step : String) (progress : ℕ) (destructiveStarted : Bool) :
    Py L Unit :=
  session
    (fun s => do
      let job ← s.getOne j
      if job.status ≠ .running then
        .error (.fault .runtime)
      else
        .ok ((), s.modifyJob j (Job.restoreCheckpoint step progress destructiveStarted)))
    fun _ => .write j

/-- The record that the request names. -/
def restoreSource (request : RestoreRequest) (s : World) : Except Exn BackupRecord :=
  let unavailable := restoreError "BACKUP_UNAVAILABLE"
    "O backup selecionado não está mais disponível."
  if request.backupRecordId < 0 then
    .error unavailable
  else match s.backups.get request.backupRecordId.toNat with
  | some record =>
      if record.filename ≠ request.sourceFilename ∨ record.location ≠ request.sourceLocation then
        .error unavailable
      else
        .ok record
  | none => .error unavailable

/-- The steps of `execute` that validate the backup in a working directory. -/
def prepareRestore (driveService : Bool) (j : JobId) (request : RestoreRequest)
    (record : BackupRecord) : Py L Unit :=
  match request.sourceLocation with
  | .drive => do
      Exec.raiseIf (driveService = false) (restoreError "REMOTE_RESTORE_UNAVAILABLE"
        "O Restore remoto não está disponível no worker.")
      restoreCheckpoint j "DOWNLOADING_REMOTE" 5 false
      let _ ← Exec.tryCatch (downloadTemporary j record (pure false)) fun e =>
        match e with
        | .fault .googleDrive | .fault .googleDriveCancelled | .fault .backupValidation =>
            Exec.raise (restoreError "REMOTE_DOWNLOAD_INVALID"
              "O backup remoto não pôde ser baixado e validado.")
        | e => Exec.raise e
      restoreCheckpoint j "VALIDATING" 15 false
      ofReply (← ask j (.prepareRemote request.backupRecordId))
  | .local => do
      restoreCheckpoint j "VALIDATING" 10 false
      ofReply (← ask j (.prepare request.backupRecordId))

/-- The steps of `execute` that make and register the preventive backup. -/
def makePreventiveBackup (j : JobId) (request : RestoreRequest) : Py RestoreLocals Unit := do
  restoreCheckpoint j "PREVENTIVE_BACKUP" 25 false
  let artifact ← Exec.tryCatch
    (createBackup j fun step progress _ =>
      restoreCheckpoint j ("PREVENTIVE_" ++ step) (min 45 (25 + progress / 5)) false)
    fun _ => Exec.raise (restoreError "PREVENTIVE_BACKUP_FAILED"
      "O backup preventivo não pôde ser criado e validado.")
  Exec.assign fun ℓ => { ℓ with preventive := some artifact }
  let (id, records) ← flushArtifact j artifact
  Exec.assign fun ℓ => { ℓ with preventiveRecordId := some id }
  let retention ← query configuredLocalRetention
  let deleted ← applyLocalRetention j records retention [request.backupRecordId.toNat, id]
  commitSession j (commitRegistration artifact j id deleted) fun _ => .record j id

/-- `_verify_no_critical_logs` of a restore and of an update, which differ in the
exceptions they raise. -/
def verifyNoCriticalLogs [Unicode] (j : JobId) (startRequestedAt : ℕ) (unavailable critical : Exn) :
    Py L Unit := do
  let entries ← Exec.tryCatch (do ofReply (← ask j (.history 100))) fun e =>
    if e = .fault .palworldLog then Exec.raise unavailable else Exec.raise e
  Exec.raiseIf
    (entries.any fun entry => startRequestedAt ≤ entry.occurredAt && isCriticalLog entry) critical

/-- The columns of a restore that succeeded. -/
def Job.finishRestore (request : RestoreRequest) (preventiveRecordId : Option ℕ) (job : Job) :
    Job :=
  { job with
    status := .succeeded
    step := "COMPLETED"
    progress := 100
    isCancellable := false
    result := some
      ([("preventive_backup_record_id", preventiveRecordId.elim .null fun i => .int i),
        ("destructive_started", .bool true), ("requires_manual_review", .bool false),
        ("final_state", .str "ONLINE")] ++ request.dict) }

/-- `_complete`. -/
def completeRestore (j : JobId) (request : RestoreRequest) : Py RestoreLocals Unit := do
  let ℓ ← Exec.locals
  finishJob j (Job.finishRestore request ℓ.preventiveRecordId)

/-- The columns of a restore that failed. -/
def Job.failRestore (request : RestoreRequest) (category message : String) (ℓ : RestoreLocals)
    (job : Job) : Job :=
  { job with
    status := .failed
    step := "FAILED"
    progress := 100
    isCancellable := false
    result := some
      ([("preventive_backup_record_id", ℓ.preventiveRecordId.elim .null fun i => .int i),
        ("destructive_started", .bool ℓ.destructiveStarted),
        ("requires_manual_review", .bool ℓ.destructiveStarted), ("error", .str category),
        ("message", .str message)] ++ request.dict) }

/-- `_fail`. -/
def failRestore (j : JobId) (request : RestoreRequest) (category message : String) :
    Py RestoreLocals Unit := do
  let ℓ ← Exec.locals
  finishJob j (Job.failRestore request category message ℓ)

/-- The steps of `execute` that put the world in the place of the running one, up
to the check of the logs. -/
def applyRestore [Unicode] (j : JobId) (request : RestoreRequest) : Py RestoreLocals Unit := do
  restoreCheckpoint j "STOPPING" 50 false
  let stop ← ofReply (← ask j (.lifecycle .stop request.stopTimeout))
  Exec.raiseIf (stop.succeeded = false)
    (restoreError "STOP_FAILED" "O Palworld não confirmou o estado offline.")
  Exec.assign fun ℓ => { ℓ with destructiveStarted := true }
  restoreCheckpoint j "RESTORING" 65 true
  ofReply (← ask j .apply)
  restoreCheckpoint j "STARTING" 85 true
  let startRequestedAt : ℕ ← ask j .now
  let start ← ofReply (← ask j (.lifecycle .start request.startTimeout))
  Exec.raiseIf (start.succeeded = false)
    (restoreError "START_FAILED" "O Palworld não confirmou o estado online.")
  restoreCheckpoint j "VERIFYING" 95 true
  verifyNoCriticalLogs j startRequestedAt
    (restoreError "POST_RESTORE_LOGS_UNAVAILABLE"
      "Os logs críticos não puderam ser verificados após o Restore.")
    (restoreError "POST_RESTORE_CRITICAL_LOG" "O Palworld registrou erro crítico após o Restore.")

/-- The steps of `execute` between its `try` and its handlers. -/
def runRestore [Unicode] (driveService : Bool) (j : JobId) (request : RestoreRequest) :
    Py RestoreLocals Unit := do
  let record ← query (restoreSource request)
  prepareRestore driveService j request record
  makePreventiveBackup j request
  applyRestore j request
  completeRestore j request

/-- Remove the preventive backup if it was made and not registered. -/
def removePreventive (j : JobId) (preventive : Option BackupArtifact) (recordId : Option ℕ) :
    Py L Unit :=
  if recordId.isNone then removeUnregistered j preventive else pure ()

/-- The handlers of `execute`. -/
def handleRestore (j : JobId) (request : RestoreRequest) (e : Exn) : Py RestoreLocals Unit :=
  match e with
  | .fault (.restore category message) => failRestore j request category message
  | e => do
      let ℓ ← Exec.locals
      removePreventive j ℓ.preventive ℓ.preventiveRecordId
      failRestore j request "UNEXPECTED_FAILURE" "O Restore falhou de forma inesperada."
      Exec.raise e

/-- `LocalRestoreJobExecutor.execute`. -/
def executeRestore [Unicode] (driveService : Bool) (j : JobId) : Py L Unit :=
  Exec.scope (⟨none, none, false⟩ : RestoreLocals) do
    let request ← query (loadRestoreRequest j)
    Exec.tryCatch (runRestore driveService j request) (handleRestore j request)

end PalworldManager
