/-
# The Drive jobs

`DriveJobExecutor` (`backups/drive_jobs.py`): the check, the upload with its
preparation of capacity, the download and the delete.
-/

import PalworldManager.Backups.Jobs
import PalworldManager.Drive.Storage

namespace PalworldManager

open Effects

variable {L : Type}

/-- `_checkpoint` of the Drive jobs. -/
def driveCheckpoint (j : JobId) (step : String) (progress : ℕ) (cancellable : Bool) :
    Py L Unit := do
  let _ ← checkpoint j googleDriveCancelled step progress cancellable

/-- `_cancel_requested`. -/
def cancelRequested (j : JobId) : Py L Bool :=
  query fun s => (s.getOne j).map fun job => job.cancelRequested && job.isCancellable

/-- `_result_record_id`. -/
def resultRecordId (result : Dict) : Except Exn ℕ :=
  match result.value "backup_record_id" with
  | .int i => if 0 < i then .ok i.toNat else .error googleDriveError
  | _ => .error googleDriveError

/-- `_managed_remote_records`, newest first. -/
def managedRemoteRecords (s : World) : List (ℕ × BackupRecord) :=
  (s.validRecords .drive).filter fun r =>
    r.2.storagePath == r.2.filename && isBackupFilename r.2.filename

/-- `_managed_remote_count`. -/
def managedRemoteCount : Py L ℕ := query fun s => .ok (managedRemoteRecords s).length

/-- `_remove_oldest_managed_remote`: how many bytes the removed file had. -/
def removeOldestManagedRemote (j : JobId) : Py L ℕ := do
  match ← query (fun s => .ok (managedRemoteRecords s).getLast?) with
  | none => pure 0
  | some (id, record) =>
      transferDelete j record
      session (fun s => .ok ((), s.deleteRecords [id])) fun _ => .records j
      pure (record.sizeBytes.getD 0)

/-- The first loop of `_prepare_capacity`: make room within the retention. -/
def enforceRetention (j : JobId) (retention : ℕ) : ℕ → Py L Unit
  | 0 => hang j
  | n + 1 => do
      let count ← managedRemoteCount
      if retention ≤ count then
        let _ ← removeOldestManagedRemote j
        enforceRetention j retention n
      else
        pure ()

/-- The second loop of `_prepare_capacity`: make room within the quota.  The
result is the number of bytes available at its end. -/
def enforceQuota (j : JobId) (requiredBytes : ℕ) : ℕ → ℕ → Py L ℕ
  | 0, _ => hang j
  | n + 1, availableBytes => do
      if availableBytes < requiredBytes then
        let count ← managedRemoteCount
        if 0 < count then
          let cancel ← cancelRequested j
          Exec.raiseIf (cancel = true) googleDriveCancelled
          let removedBytes ← removeOldestManagedRemote j
          let quota ← ofReply (← ask j .quota)
          enforceQuota j requiredBytes n (max (availableBytes + removedBytes) quota.freeBytes)
        else
          pure availableBytes
      else
        pure availableBytes

/-- `_prepare_capacity`. -/
def prepareCapacity (j : JobId) (requiredBytes : ℕ) : Py L Unit := do
  let retention ← query configuredDriveRetention
  let bound : ℕ ← ask j .bound
  enforceRetention j retention bound
  let quota ← ofReply (← ask j .quota)
  let bound : ℕ ← ask j .bound
  let availableBytes ← enforceQuota j requiredBytes bound quota.freeBytes
  Exec.raiseIf (availableBytes < requiredBytes) googleDriveError

/-- `AUDIT_ACTION_PATTERN.fullmatch(action)`, which `record_audit_event` requires
of every action. -/
def isAuditAction (action : String) : Bool :=
  match action.toList with
  | c :: cs => ('A' ≤ c && c ≤ 'Z') && cs.length ≤ 99 &&
      cs.all fun d => ('A' ≤ d && d ≤ 'Z') || ('0' ≤ d && d ≤ '9') || d == '_'
  | [] => false

/-- The columns of a finished Drive job. -/
def Job.finishDrive (status : JobStatus) (step : String) (result : Dict) (job : Job) : Job :=
  { job with
    status := status
    step := step
    progress := 100
    isCancellable := false
    result := some result }

/-- `_finish_success`. -/
def finishDriveSuccess (j : JobId) (result : Dict) : Py L Unit :=
  finishJob j (Job.finishDrive .succeeded "COMPLETED" result)

/-- `_finish_cancelled` and `_finish_failed`: the audit event names the stored
operation, and raises if that is no audit action. -/
def finishDriveError (j : JobId) (result : Dict) (status : JobStatus) (step error : String) :
    Py L Unit := do
  let operation := ((result.lookup "operation").map Value.text).getD "OPERATION"
  Exec.raiseIf (isAuditAction ("DRIVE_" ++ operation) = false) (.fault .value)
  finishJob j (Job.finishDrive status step ([("error", .str error)] ++ result))

/-- `_execute_check`. -/
def executeDriveCheck (j : JobId) : Py L Unit := do
  driveCheckpoint j "CHECKING_CONNECTION" 30 false
  let quota ← ofReply (← ask j .quota)
  let remoteCount ← ofReply (← ask j .listFiles)
  finishDriveSuccess j
    [("operation", .str "CHECK"), ("quota_total", .int quota.totalBytes),
     ("quota_used", .int quota.usedBytes), ("quota_free", .int quota.freeBytes),
     ("quota_trashed", .int quota.trashedBytes), ("remote_count", .int remoteCount)]

/-- The record that an upload makes. -/
def DriveFile.record (remote : DriveFile) (j : JobId) (createdAt : ℕ) : BackupRecord where
  jobId := some j
  filename := remote.filename
  location := .drive
  isValid := true
  sha256 := some remote.sha256
  sizeBytes := some remote.sizeBytes
  storagePath := remote.filename
  createdAt := createdAt

/-- The last session of an upload. -/
def commitUpload (j : JobId) (result : Dict) (remote : DriveFile) (createdAt : ℕ) (s : World) :
    Except Exn ((JobStatus × JobStatus) × World) := do
  if s.backups.rows.any fun r => r.2.location == .drive && r.2.filename == remote.filename then
    .error googleDriveError
  else
    let id := s.backups.nextId
    let s ← s.insertRecord id (remote.record j createdAt)
    let job ← s.getOne j
    pure ((job.status, .succeeded), s.modifyJob j (Job.finishDrive .succeeded "COMPLETED"
      ([("remote_backup_record_id", .int id), ("sha256", .str remote.sha256),
        ("size_bytes", .int remote.sizeBytes), ("integrity", .str "VALID")] ++ result)))

/-- What an upload needs of its local record. -/
def uploadSource (recordId : ℕ) (s : World) : Except Exn ℕ :=
  match s.backups.get recordId with
  | some record => match record.validAt .local, record.sizeBytes with
    | true, some size => .ok size
    | _, _ => .error googleDriveError
  | none => .error googleDriveError

/-- `_execute_upload`. -/
def executeDriveUpload (j : JobId) (result : Dict) : Py L Unit := do
  let recordId ← Exec.ofExcept (resultRecordId result)
  driveCheckpoint j "VALIDATING_LOCAL" 10 true
  let requiredBytes ← query (uploadSource recordId)
  driveCheckpoint j "CHECKING_QUOTA" 20 true
  prepareCapacity j requiredBytes
  driveCheckpoint j "UPLOADING" 35 true
  let record ← query fun s => s.getOneRecord recordId
  let remote ← transferUpload j record (cancelRequested j)
  driveCheckpoint j "VERIFYING_REMOTE" 90 false
  Exec.tryCatch
    (do
      let _ ← session (commitUpload j result remote record.createdAt) fun p => .finish j p.1 p.2
      pure ())
    fun e => do
      removeUploadedArtifact j remote.filename
      Exec.raise e

/-- The last commit of a download. -/
def commitDownload (j : JobId) (result : Dict) (artifact : BackupArtifact) (recordId : ℕ)
    (deleted : List ℕ) (s : World) : Except Exn ((JobStatus × JobStatus) × World) := do
  let s ← s.insertRecord recordId (artifact.record j)
  let s := s.deleteRecords deleted
  let job ← s.getOne j
  pure ((job.status, .succeeded), s.modifyJob j (Job.finishDrive .succeeded "COMPLETED"
    ([("local_backup_record_id", .int recordId), ("integrity", .str "VALID")] ++ result)))

/-- `_execute_download`. -/
def executeDriveDownload (j : JobId) (result : Dict) : Py L Unit := do
  let recordId ← Exec.ofExcept (resultRecordId result)
  driveCheckpoint j "DOWNLOADING" 20 true
  let record ← query fun s => s.getOneRecord recordId
  let artifact ← transferDownload j record (cancelRequested j)
  driveCheckpoint j "VALIDATING_DOWNLOAD" 85 false
  Exec.tryCatch
    (do
      let (localRecordId, records) ← flushArtifact j artifact
      let retention ← query configuredLocalRetention
      let deleted ← applyLocalRetention j records retention [localRecordId]
      let _ ← commitSession j (commitDownload j result artifact localRecordId deleted)
        fun p => .finish j p.1 p.2
      pure ())
    fun e => do
      let _ ← removeManagedArtifact j .executor artifact.storagePath
      Exec.raise e

/-- `_execute_delete`. -/
def executeDriveDelete (j : JobId) (result : Dict) : Py L Unit := do
  let recordId ← Exec.ofExcept (resultRecordId result)
  driveCheckpoint j "DELETING_REMOTE" 50 false
  let record ← query fun s => s.getOneRecord recordId
  transferDelete j record
  session (fun s => .ok ((), s.deleteRecords [recordId])) fun _ => .records j
  finishDriveSuccess j result

/-- What `execute` reads of its job. -/
def driveRequest (j : JobId) (s : World) : Except Exn (DriveOperation × Dict) := do
  let job ← s.getOne j
  match job.kind, job.status with
  | .drive operation, .running => .ok (operation, job.data)
  | _, _ => .error (.fault .value)

/-- The operation of a Drive job. -/
def runDrive (j : JobId) (result : Dict) : DriveOperation → Py L Unit
  | .check => executeDriveCheck j
  | .upload => executeDriveUpload j result
  | .download => executeDriveDownload j result
  | .delete => executeDriveDelete j result

/-- The handlers of `execute`. -/
def handleDrive (j : JobId) (result : Dict) (e : Exn) : Py L Unit :=
  match e with
  | .fault .googleDriveCancelled =>
      finishDriveError j result .cancelled "CANCELLED" "CANCELLED"
  | e => do
      finishDriveError j result .failed "FAILED" "DRIVE_FAILED"
      Exec.raise e

/-- `DriveJobExecutor.execute`. -/
def executeDrive (j : JobId) : Py L Unit := do
  let (operation, result) ← query (driveRequest j)
  Exec.tryCatch (runDrive j result operation) (handleDrive j result)

end PalworldManager
