/-
# Transfers to and from the remote

`RcloneGoogleDriveStorage` (`integrations/google_drive.py`) and
`DriveTransferService` (`backups/drive_service.py`).

An rclone command that changes the remote may fail after it had its effect; the
answer to a question about such a command says both how it ended and whether the
remote changed, and a transaction then records the change.
-/

import PalworldManager.Backups.Service

namespace PalworldManager

open Effects

variable {L : Type}

/-- `GoogleDriveError`. -/
abbrev googleDriveError : Exn := .fault .googleDrive

/-- `GoogleDriveCancelled`. -/
abbrev googleDriveCancelled : Exn := .fault .googleDriveCancelled

/-- `_sha256`: the digest in lower case. -/
def normalizedSha256 (value : String) : Except Exn String :=
  let digest := value.toLower
  if digest.length = 64 ∧
      digest.toList.all fun c => ('0' ≤ c && c ≤ '9') || ('a' ≤ c && c ≤ 'f') then
    .ok digest
  else .error googleDriveError

/-- `_stat`. -/
def remoteStat (j : JobId) (name : String) : Py L (Option DriveFile) := do
  match ← ask j (.stat name) with
  | .error f => if f.isGoogleDrive then pure none else Exec.raise (.fault f)
  | .ok (.file f) => pure (some f)
  | .ok _ => Exec.raise googleDriveError

/-- `_delete_exact`. -/
def deleteExact (j : JobId) (name : String) (ignoreMissing : Bool) : Py L Unit := do
  let change : RemoteChange ← ask j (.deletefile name)
  Exec.tx
    (fun s => ((), if change.happened then
      { s with remoteFiles := Function.update s.remoteFiles name none } else s))
    fun _ => .deleted j name
  match change with
  | .done => pure ()
  | .failed f _ => Exec.raiseIf (¬(ignoreMissing ∧ f.isGoogleDrive)) (.fault f)

/-- `rclone moveto`. -/
def moveRemote (j : JobId) (source target : String) : Py L Unit := do
  let change : RemoteChange ← ask j (.moveto source target)
  Exec.tx
    (fun s => ((), if change.happened then
      { s with remoteFiles := Function.update s.remoteFiles target (some j) } else s))
    fun _ => if change.happened then .published j .drive target else .read
  match change with
  | .done => pure ()
  | .failed f _ => Exec.raise (.fault f)

/-- The loop of `SubprocessCommandRunner.run` with a cancellation check: the
command ends after so many polls, unless one of them finds a cancellation. -/
def pollCopy (j : JobId) (cancelRequested : Py L Bool) : ℕ → Py L Unit
  | 0 => do
      let cancel ← cancelRequested
      Exec.raiseIf (cancel = true) googleDriveCancelled
      storage j .remoteCopy
  | n + 1 => do
      let cancel ← cancelRequested
      Exec.raiseIf (cancel = true) googleDriveCancelled
      pollCopy j cancelRequested n

/-- `rclone copyto`. -/
def copyRemote (j : JobId) (cancelRequested : Py L Bool) : Py L Unit := do
  let polls : ℕ ← ask j .bound
  pollCopy j cancelRequested polls

/-- Whether a remote file is what was sent. -/
def matchesSource (file : Option DriveFile) (digest : String) (size : ℕ) : Bool :=
  file.any fun f => f.sha256 == digest && f.sizeBytes == size

/-- The steps of `upload` between its `try` and its handler. -/
def publishRemote (j : JobId) (temporary filename digest : String)
    (cancelRequested : Py L Bool) : Py L DriveFile := do
  copyRemote j cancelRequested
  let copied ← remoteStat j temporary
  let size ← ofReply (← ask j .size)
  Exec.raiseIf (matchesSource copied digest size = false) googleDriveError
  let cancel ← cancelRequested
  Exec.raiseIf (cancel = true) googleDriveCancelled
  moveRemote j temporary filename
  let final ← remoteStat j filename
  let size ← ofReply (← ask j .size)
  match final with
  | some f =>
      Exec.raiseIf (matchesSource final digest size = false) googleDriveError
      pure f
  | none => Exec.raise googleDriveError

/-- `RcloneGoogleDriveStorage.upload`. -/
def storageUpload (j : JobId) (filename expected : String) (cancelRequested : Py L Bool) :
    Py L DriveFile := do
  Exec.raiseIf (isBackupFilename filename = false) googleDriveError
  let digest ← Exec.ofExcept (normalizedSha256 expected)
  let regular ← ofReply (← ask j (.probe .regularFile))
  let sourceDigest ← ofReply (← ask j .digest)
  Exec.raiseIf (regular = false ∨ sourceDigest ≠ digest) googleDriveError
  storage j .remoteMkdir
  let existing ← remoteStat j filename
  Exec.raiseIf (existing.isSome = true) googleDriveError
  let identity : BackupIdentity ← ask j .identity
  let temporary := ".palworld-manager-upload-j" ++ pad6 j ++ "-" ++ identity.backupId ++ ".partial"
  Exec.tryCatch (publishRemote j temporary filename digest cancelRequested) fun e => do
    deleteExact j temporary true
    Exec.raise e

/-- `RcloneGoogleDriveStorage.delete`. -/
def storageDelete (j : JobId) (filename : String) : Py L Unit := do
  Exec.raiseIf (isBackupFilename filename = false) googleDriveError
  deleteExact j filename false

/-- `RcloneGoogleDriveStorage.download`. -/
def storageDownload (j : JobId) (filename expected : String) (cancelRequested : Py L Bool) :
    Py L Unit := do
  Exec.raiseIf (isBackupFilename filename = false) googleDriveError
  let present ← ofReply (← ask j (.probe .present))
  Exec.raiseIf (present = true) googleDriveError
  copyRemote j cancelRequested
  let regular ← ofReply (← ask j (.probe .regularFile))
  Exec.raiseIf (regular = false) googleDriveError
  let digest ← ofReply (← ask j .digest)
  let required ← Exec.ofExcept (normalizedSha256 expected)
  Exec.raiseIf (digest ≠ required) googleDriveError

/-- `DriveTransferService.upload`. -/
def transferUpload (j : JobId) (record : BackupRecord) (cancelRequested : Py L Bool) :
    Py L DriveFile := do
  let managed ← resolveManagedArtifact j .transfer record.storagePath
  match record.sha256, record.sizeBytes with
  | some sha256, some sizeBytes =>
      Exec.raiseIf (record.location ≠ .local ∨ record.isValid = false ∨ managed = false)
        googleDriveError
      let regular ← ofReply (← ask j (.isFile .transfer record.storagePath))
      Exec.raiseIf (regular = false) googleDriveError
      let size ← ofReply (← ask j .size)
      let digest ← ofReply (← ask j .digest)
      Exec.raiseIf (size ≠ sizeBytes ∨ digest ≠ sha256) googleDriveError
      let _ ← ofReply (← ask j .archive)
      storageUpload j record.filename sha256 cancelRequested
  | _, _ => Exec.raise googleDriveError

/-- The checks of `_validate_remote_record`: a managed remote record, with the
digest and the size it must have. -/
def BackupRecord.remoteContent (record : BackupRecord) : Option (String × ℕ) :=
  if record.location = .drive ∧ record.isValid ∧ record.storagePath = record.filename ∧
      isBackupFilename record.filename then
    match record.sha256, record.sizeBytes with
    | some sha256, some sizeBytes => if 0 < sizeBytes then some (sha256, sizeBytes) else none
    | _, _ => none
  else none

/-- `_validate_remote_record`. -/
def validateRemoteRecord (record : BackupRecord) : Py L (String × ℕ) :=
  match record.remoteContent with
  | some content => pure content
  | none => Exec.raise googleDriveError

/-- `download_temporary`: the backup identifier of the downloaded archive. -/
def downloadTemporary (j : JobId) (record : BackupRecord) (cancelRequested : Py L Bool) :
    Py L String := do
  let (sha256, sizeBytes) ← validateRemoteRecord record
  storage j .makeDirectories
  validateControlledDirectory j (.fault .backupValidation)
  storage j .makeWorkingDirectory
  storageDownload j record.filename sha256 cancelRequested
  let regular ← ofReply (← ask j (.probe .regularFile))
  let size ← ofReply (← ask j .size)
  let digest ← ofReply (← ask j .digest)
  Exec.raiseIf (regular = false ∨ size ≠ sizeBytes ∨ digest ≠ sha256) googleDriveError
  match ← ofReply (← ask j .archive) with
  | some backupId => pure backupId
  | none => Exec.raise (.fault .backupValidation)

/-- The steps of `download` between its `try` and its handler.  The local
variable is `published`. -/
def publishDownload (j : JobId) (record : BackupRecord) (sha256 : String) (sizeBytes : ℕ)
    (backupId : String) (cancelRequested : Py Bool Bool) : Py Bool BackupArtifact := do
  let present ← destinationExists j (localStoragePath record.filename)
  Exec.raiseIf (present = true) googleDriveError
  let cancel ← cancelRequested
  Exec.raiseIf (cancel = true) googleDriveCancelled
  storage j .replace
  publishLocal j (localStoragePath record.filename)
  storage j .chmod
  Exec.assign fun _ => true
  let _ ← ofReply (← ask j .archive)
  let digest ← ofReply (← ask j .digest)
  Exec.raiseIf (digest ≠ sha256) googleDriveError
  pure
    { backupId := backupId
      filename := record.filename
      storagePath := localStoragePath record.filename
      sha256 := sha256
      sizeBytes := sizeBytes
      createdAt := record.createdAt
      placed := rfl }

/-- `DriveTransferService.download`. -/
def transferDownload (j : JobId) (record : BackupRecord) (cancelRequested : Py Bool Bool) :
    Py L BackupArtifact :=
  Exec.scope false do
    let (sha256, sizeBytes) ← validateRemoteRecord record
    storage j .makeDirectories
    validateControlledDirectory j (.fault .backupValidation)
    let present ← destinationExists j (localStoragePath record.filename)
    Exec.raiseIf (present = true) googleDriveError
    let backupId ← downloadTemporary j record cancelRequested
    Exec.tryCatch (publishDownload j record sha256 sizeBytes backupId cancelRequested) fun e => do
      let published ← Exec.locals
      if published then
        let _ ← removeManagedArtifact j .publication (localStoragePath record.filename)
        Exec.raise e
      else
        Exec.raise e

/-- `DriveTransferService.delete`. -/
def transferDelete (j : JobId) (record : BackupRecord) : Py L Unit := do
  let _ ← validateRemoteRecord record
  storageDelete j record.filename

/-- `remove_uploaded_artifact`. -/
def removeUploadedArtifact (j : JobId) (filename : String) : Py L Unit := do
  Exec.raiseIf (isBackupFilename filename = false) googleDriveError
  storageDelete j filename

end PalworldManager
