/-
# The local backup job

`LocalBackupJobExecutor` (`backups/jobs.py`).

The checkpoint of a backup, a Drive transfer or an update is one session that
loads the job and later writes it back.  SQLite takes the write lock only at the
first write, and the ORM writes only the columns whose value differs from the
one it loaded, so `checkpoint` is two transactions: the read, which raises when
a cancellation is due, and the write of the changed columns.
-/

import PalworldManager.Backups.Service

namespace PalworldManager

open Effects

variable {L : Type}

/-- The columns that a checkpoint writes, given the row it had read. -/
def Job.checkpoint (read : Job) (step : String) (progress : ℕ) (cancellable : Bool) (job : Job) :
    Job :=
  { job with
    step := if read.step = step then job.step else step
    progress := if read.progress = progress then job.progress else progress
    isCancellable := if read.isCancellable = cancellable then job.isCancellable else cancellable }

/-- What a checkpoint reads, and when it raises. -/
def readCheckpoint (j : JobId) (cancelled : Exn) (s : World) : Except Exn Job := do
  let job ← s.getOne j
  if job.status ≠ .running then
    .error (.fault .runtime)
  else if job.cancelRequested && job.isCancellable then
    .error cancelled
  else
    .ok job

/-- `_checkpoint`: the row as it was read. -/
def checkpoint (j : JobId) (cancelled : Exn) (step : String) (progress : ℕ) (cancellable : Bool) :
    Py L Job := do
  let found : Except Exn Job ← Exec.tx (fun s => (readCheckpoint j cancelled s, s))
    fun r => .guard j cancellable r.isOk
  let read ← Exec.ofExcept found
  let _ ← Exec.tx
    (fun s => ((s.jobs.get j).any Job.cancelRequested,
      s.modifyJob j (read.checkpoint step progress cancellable)))
    fun pending => .checkpoint j cancellable pending
  pure read

/-- `_checkpoint` of the local backup, as the callback of `create`. -/
def backupCheckpoint (j : JobId) (step : String) (progress : ℕ) (cancellable : Bool) :
    Py L Unit := do
  let _ ← checkpoint j .backupCancelled step progress cancellable

/-- `_job_trigger`. -/
def jobTrigger (job : Job) : Except Exn String :=
  if job.kind ≠ .localBackup ∨ job.status ≠ .running then
    .error (.fault .value)
  else match job.data.value "trigger" with
  | .str t => if t ∈ ["MANUAL", "AUTOMATIC"] then .ok t else .error (.fault .value)
  | _ => .error (.fault .value)

/-- `_finish_failed_job`. -/
def Job.finishFailed (status : JobStatus) (step error : String) (job : Job) : Job :=
  { job with
    status := status
    step := step
    progress := 100
    isCancellable := false
    result := some [("trigger", (job.data.lookup "trigger").getD (.str "MANUAL")),
      ("error", .str error)] }

/-- The columns of a job whose backup has been registered. -/
def Job.finishBackup (trigger : String) (recordId : ℕ) (artifact : BackupArtifact)
    (driveJob : Option JobId) (job : Job) : Job :=
  { job with
    status := .succeeded
    step := "COMPLETED"
    progress := 100
    isCancellable := false
    result := some
      [("trigger", .str trigger), ("backup_record_id", .int recordId),
       ("filename", .str artifact.filename), ("size_bytes", .int artifact.sizeBytes),
       ("sha256", .str artifact.sha256), ("integrity", .str "VALID"),
       ("drive_upload_job_id", driveJob.elim .null fun i => .int i)] }

/-- The commit of a finished backup: its record, the retention's deletes, the
upload of an automatic backup, and the job. -/
def commitBackup (automaticDriveUploads : Bool) (j : JobId) (trigger : String)
    (artifact : BackupArtifact) (recordId : ℕ) (deleted : List ℕ) (s : World) :
    Except Exn ((JobStatus × JobStatus) × World) := do
  let job ← s.getOne j
  let s ← s.insertRecord recordId (artifact.record j)
  let s := s.deleteRecords deleted
  if trigger = "AUTOMATIC" ∧ automaticDriveUploads then
    let (driveJob, s) ← enqueueDriveUpload recordId "AUTOMATIC" s
    pure ((job.status, .succeeded),
      s.modifyJob j (Job.finishBackup trigger recordId artifact (some driveJob)))
  else
    pure ((job.status, .succeeded),
      s.modifyJob j (Job.finishBackup trigger recordId artifact none))

/-- The steps of `execute` between its `try` and its handlers.  The local
variable is `artifact`. -/
def runLocalBackup (automaticDriveUploads : Bool) (j : JobId) (trigger : String) :
    Py (Option BackupArtifact) Unit := do
  let artifact ← createBackup j (backupCheckpoint j)
  Exec.assign fun _ => some artifact
  let (recordId, records) ← flushArtifact j artifact
  let retention ← query configuredLocalRetention
  let deleted ← applyLocalRetention j records retention []
  let _ ← commitSession j (commitBackup automaticDriveUploads j trigger artifact recordId deleted)
    fun p => .finish j p.1 p.2
  pure ()

/-- The handlers of `execute`. -/
def handleLocalBackup (j : JobId) (e : Exn) : Py (Option BackupArtifact) Unit :=
  match e with
  | .backupCancelled => finishJob j (Job.finishFailed .cancelled "CANCELLED" "CANCELLED")
  | e => do
      removeUnregistered j (← Exec.locals)
      finishJob j (Job.finishFailed .failed "FAILED" "BACKUP_FAILED")
      Exec.raise e

/-- `LocalBackupJobExecutor.execute`. -/
def executeLocalBackup (automaticDriveUploads : Bool) (j : JobId) : Py L Unit :=
  Exec.scope none do
    let trigger ← query fun s => s.getOne j >>= jobTrigger
    Exec.tryCatch (runLocalBackup automaticDriveUploads j trigger) (handleLocalBackup j)

end PalworldManager
