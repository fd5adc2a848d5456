/-
# Making, removing and retaining local backups

`LocalBackupService` (`backups/service.py`) with its calls to the file system as
questions, and the registration and retention of records (`backups/jobs.py`).

A session in which files are removed holds its transaction open over those
calls.  Here it flushes its insert, makes the calls, and commits its inserts and
deletes at the end; a commit that finds its row taken raises, as the unique
constraints do, and any commit may fail.  The removal of a temporary directory with `ignore_errors=True`
cannot raise and leaves no trace.
-/

import PalworldManager.Requests

namespace PalworldManager

open Effects

variable {L : Type}

/-- `BackupArtifact`: an archive under its final name in the backup directory. -/
structure BackupArtifact where
  backupId : String
  filename : String
  storagePath : String
  sha256 : String
  sizeBytes : ℕ
  createdAt : ℕ
  placed : storagePath = localStoragePath filename
  deriving DecidableEq

/-- A file operation without a result. -/
def storage (j : JobId) (op : StorageOp) : Py L Unit := do
  ofReply (← ask j (.storage op))

/-- `_validate_controlled_directory`. -/
def validateControlledDirectory (j : JobId) (invalid : Exn) : Py L Unit := do
  let valid ← ofReply (← ask j (.probe .controlledDirectory))
  Exec.raiseIf (valid = false) invalid

/-- `resolve_managed_artifact`: whether a path is that of a managed artifact. -/
def resolveManagedArtifact (j : JobId) (site : ArtifactSite) (path : String) : Py L Bool := do
  if isManagedPath path then
    ofReply (← ask j (.resolve site path))
  else
    pure false

/-- Whether a path of the backup directory is taken: a file that was published under
it is seen, and of any other the file system says so. -/
def destinationExists (j : JobId) (path : String) : Py L Bool := do
  let published ← query fun s => .ok (s.localFiles path).isSome
  let present ← ofReply (← ask j (.probe .present))
  pure (published || present)

/-- A local backup file appears under a path. -/
def publishLocal (j : JobId) (path : String) : Py L Unit :=
  Exec.tx (fun s => ((), { s with localFiles := Function.update s.localFiles path (some j) }))
    fun _ => .published j .local path

/-- A local backup file disappears. -/
def eraseLocal (j : JobId) (site : ArtifactSite) (path : String) : Py L Unit :=
  Exec.tx (fun s => ((), { s with localFiles := Function.update s.localFiles path none }))
    fun _ => .removed j site path

/-- `remove_managed_artifact`. -/
def removeManagedArtifact (j : JobId) (site : ArtifactSite) (path : String) : Py L Bool := do
  let managed ← resolveManagedArtifact j site path
  if managed then
    let isFile ← ofReply (← ask j (.isFile site path))
    if isFile then
      ofReply (← ask j (.unlink site path))
      eraseLocal j site path
      pure true
    else
      pure false
  else
    pure false

/-- Remove an artifact that was made and not registered. -/
def removeUnregistered (j : JobId) : Option BackupArtifact → Py L Unit
  | some artifact => do
      let _ ← removeManagedArtifact j .executor artifact.storagePath
  | none => pure ()

/-- The file name that `create` composes. -/
def backupFilename (identity : BackupIdentity) (j : JobId) : String :=
  "palworld-manager-backup-" ++ identity.stamp ++ "-j" ++ pad6 j ++ "-" ++ identity.backupId ++
    ".tar.gz"

/-- The step of `create` that the state of the server decides. -/
def prepareServer (j : JobId) (progress : String → ℕ → Bool → Py L Unit) :
    PalworldHealthState → Py L Unit
  | .online => do
      progress "SAFE_SAVE" 10 true
      storage j .requestSafeSave
  | .offline => progress "OFFLINE_SNAPSHOT" 10 true
  | _ => Exec.raise .backupConsistency

/-- The steps of `create` that fill its working directory. -/
def stageArchive (j : JobId) (progress : String → ℕ → Bool → Py L Unit) : Py L Unit := do
  progress "CHECKING_SERVER" 5 true
  let health ← ofReply (← ask j .health)
  prepareServer j progress health
  progress "COPYING_WORLD" 25 true
  storage j .stagePalworldPayload
  progress "COPYING_DATABASE" 45 true
  storage j .stageManagerPayload
  progress "BUILDING_MANIFEST" 60 true
  storage j .buildManifest
  progress "COMPRESSING" 70 true
  storage j .writeArchive

/-- The steps of `create` that check the archive, give it its final name and
check it again.  The local variable is `published`. -/
def publishArchive (j : JobId) (identity : BackupIdentity) (filename : String)
    (progress : String → ℕ → Bool → Py Bool Unit) : Py Bool BackupArtifact := do
  progress "VALIDATING" 85 true
  let manifestId ← ofReply (← ask j .archive)
  Exec.raiseIf (manifestId ≠ some identity.backupId) (.fault .backupValidation)
  let digest ← ofReply (← ask j .digest)
  let sizeBytes ← ofReply (← ask j .size)
  progress "PUBLISHING" 95 false
  let present ← destinationExists j (localStoragePath filename)
  Exec.raiseIf (present = true) (.fault .backupValidation)
  storage j .replace
  publishLocal j (localStoragePath filename)
  storage j .chmod
  Exec.assign fun _ => true
  let _ ← ofReply (← ask j .archive)
  let published ← ofReply (← ask j .digest)
  Exec.raiseIf (published ≠ digest) (.fault .backupValidation)
  pure
    { backupId := identity.backupId
      filename := filename
      storagePath := localStoragePath filename
      sha256 := digest
      sizeBytes := sizeBytes
      createdAt := identity.createdAt
      placed := rfl }

/-- The steps of `create` between its `try` and its handler. -/
def createArchive (j : JobId) (identity : BackupIdentity) (filename : String)
    (progress : String → ℕ → Bool → Py Bool Unit) : Py Bool BackupArtifact := do
  stageArchive j progress
  publishArchive j identity filename progress

/-- The steps of `create` from the name of the backup on. -/
def createNamed (j : JobId) (identity : BackupIdentity) (filename : String)
    (progress : String → ℕ → Bool → Py Bool Unit) : Py Bool BackupArtifact := do
  Exec.raiseIf (isBackupFilename filename = false) (.fault .assertion)
  storage j .makeDirectories
  validateControlledDirectory j (.fault .backupValidation)
  validateControlledDirectory j (.fault .backupValidation)
  storage j .makeWorkingDirectory
  Exec.tryCatch (createArchive j identity filename progress) fun e => do
    let published ← Exec.locals
    if published then
      let _ ← removeManagedArtifact j .publication (localStoragePath filename)
      Exec.raise e
    else
      Exec.raise e

/-- `LocalBackupService.create`.  The trigger goes into the manifest only. -/
def createBackup (j : JobId) (progress : String → ℕ → Bool → Py Bool Unit) :
    Py L BackupArtifact :=
  Exec.scope false do
    Exec.raiseIf (j = 0) (.fault .value)
    let identity ← ask j .identity
    createNamed j identity (backupFilename identity j) progress

/-- The record that `register_backup_artifact` makes. -/
def BackupArtifact.record (artifact : BackupArtifact) (j : JobId) : BackupRecord where
  jobId := some j
  filename := artifact.filename
  location := .local
  isValid := true
  sha256 := some artifact.sha256
  sizeBytes := some artifact.sizeBytes
  storagePath := artifact.storagePath
  createdAt := artifact.createdAt

/-- Insert a record under an identifier, within the primary key and
`uq_backup_records_location_filename`. -/
def World.insertRecord (s : World) (id : ℕ) (record : BackupRecord) : Except Exn World :=
  if h : s.backups.get id = none then
    if s.backups.rows.any fun r =>
        r.2.location == record.location && r.2.filename == record.filename then
      .error .integrityError
    else
      .ok { s with backups := s.backups.insertAt id record h }
  else
    .error .integrityError

/-- Delete records. -/
def World.deleteRecords (s : World) (ids : List ℕ) : World :=
  { s with backups := s.backups.keep fun id _ => id ∉ ids }

/-- `ORDER BY created_at DESC, id DESC`. -/
def NewerFirst (x y : ℕ × BackupRecord) : Prop :=
  y.2.createdAt < x.2.createdAt ∨ (x.2.createdAt = y.2.createdAt ∧ y.1 ≤ x.1)

instance : DecidableRel NewerFirst := fun _ _ => inferInstanceAs (Decidable (_ ∨ (_ ∧ _)))

/-- The valid records of a location, newest first. -/
def World.validRecords (s : World) (location : Location) : List (ℕ × BackupRecord) :=
  s.backups.select (fun _ r => r.location == location && r.isValid) NewerFirst

/-- The records that `apply_local_retention` keeps: the protected ones, and then
the newest until there are `retention` of them. -/
def keptRecords (managed : List (ℕ × BackupRecord)) (retention : ℕ) (preserve : List ℕ) :
    List (ℕ × BackupRecord) :=
  managed.foldl
    (fun kept r => if retention ≤ kept.length ∨ r ∈ kept then kept else kept ++ [r])
    (managed.filter fun r => r.1 ∈ preserve)

/-- The records whose path `resolve_managed_artifact` accepts. -/
def managedRecords (j : JobId) : List (ℕ × BackupRecord) → Py L (List (ℕ × BackupRecord))
  | [] => pure []
  | r :: rs => do
      let managed ← resolveManagedArtifact j .retention r.2.storagePath
      let rest ← managedRecords j rs
      pure (if managed then r :: rest else rest)

/-- Remove the files of records, one after another. -/
def removeRecords (j : JobId) : List (ℕ × BackupRecord) → Py L Unit
  | [] => pure ()
  | r :: rs => do
      let _ ← removeManagedArtifact j .retention r.2.storagePath
      removeRecords j rs

/-- `apply_local_retention`: the identifiers of the records to delete, their
files removed. -/
def applyLocalRetention (j : JobId) (records : List (ℕ × BackupRecord)) (retention : ℕ)
    (preserve : List ℕ) : Py L (List ℕ) := do
  let managed ← managedRecords j records
  let kept := (keptRecords managed retention preserve).map Prod.fst
  let removed := managed.filter fun r => r.1 ∉ kept
  removeRecords j removed
  pure (removed.map Prod.fst)

/-- `register_backup_artifact`, up to the commit of its session: the identifier
of the new record, and the local valid records with the new one among them. -/
def registerBackupArtifact (artifact : BackupArtifact) (j : JobId) (s : World) :
    Except Exn (ℕ × List (ℕ × BackupRecord)) := do
  let id := s.backups.nextId
  let s ← s.insertRecord id (artifact.record j)
  pure (id, s.validRecords .local)

/-- `register_backup_artifact` in its session: the insert is flushed, and no other
session sees it yet. -/
def flushArtifact (j : JobId) (artifact : BackupArtifact) :
    Py L (ℕ × List (ℕ × BackupRecord)) :=
  session (fun s => (registerBackupArtifact artifact j s).map fun r => (r, s))
    fun r => .staged j r.1

/-- `configured_local_retention`. -/
def configuredLocalRetention (s : World) : Except Exn ℕ :=
  (loadManagerSettings s).map fun v => v.localBackupRetention.1

/-- `configured_drive_retention`. -/
def configuredDriveRetention (s : World) : Except Exn ℕ :=
  (loadManagerSettings s).map fun v => v.driveBackupRetention.1

/-- The commit of a session that registers an artifact: it may fail, or is that of
`f`. -/
def commitSession {α : Type} (j : JobId) (f : World → Except Exn (α × World))
    (label : α → Label) : Py L α := do
  storage j .commitRegistration
  session f label

/-- What the commit of a session that registers an artifact and ends no job does. -/
def commitRegistration (artifact : BackupArtifact) (j : JobId) (id : ℕ) (deleted : List ℕ)
    (s : World) : Except Exn (Unit × World) := do
  let s ← s.insertRecord id (artifact.record j)
  pure ((), s.deleteRecords deleted)

end PalworldManager
