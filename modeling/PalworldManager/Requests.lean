/-
# Requests of the web process

Every transaction by which the web process changes the tables of the jobs: the
`enqueue_*` functions, the requests to cancel a job or to stop at once, and the
form of the operational settings.  `handle` is one such transaction.  The
scheduler's automatic backup is `localBackup none "AUTOMATIC"`.

A family of functions differs in the checks it makes before inserting a row, so
each keeps its own definition; the insertion itself, with the unique index on
the coordination keys of active jobs, is `insertJob`.
-/

import PalworldManager.Backups.Names
import PalworldManager.Settings

namespace PalworldManager

open Effects

/-- Whether an active job has a coordination key. -/
def activeWithKey (s : World) (key : CoordinationKey) : Bool :=
  s.jobs.rows.any fun r => r.2.coordinationKey == some key && r.2.status.isActive

/-- A row as the constructors of the source make it, pending and waiting. -/
def pendingJob (s : World) (kind : JobKind) (cancellable lock : Bool) (key : CoordinationKey)
    (user : Option ℕ) (result : Dict) : Job where
  kind := kind
  status := .pending
  step := "WAITING"
  progress := 0
  isCancellable := cancellable
  cancelRequested := false
  executeNowRequested := false
  requiresMaintenanceLock := lock
  coordinationKey := some key
  requestedByUserId := user
  claimedBy := none
  createdAt := s.now
  result := some result
  logPath := none

/-- `session.add(job); session.flush()`: the unique index on the coordination
key of active jobs turns a duplicate into a conflict. -/
def insertJob (message : String) (job : Job) (s : World) : Except Exn (JobId × World) :=
  if job.coordinationKey.any (activeWithKey s) then
    .error (.conflict message)
  else
    .ok (s.jobs.nextId, { s with jobs := s.jobs.add job })

/-- Refuse with a conflict while an active job has a key. -/
def ensureNoActive (s : World) (key : CoordinationKey) (message : String) : Except Exn Unit :=
  if activeWithKey s key then .error (.conflict message) else .ok ()

/-- `kind LIKE 'PALWORLD_%'`, where `_` stands for any one character. -/
def JobKind.likePalworld (kind : JobKind) : Bool :=
  "PALWORLD".toList.isPrefixOf kind.value.toList && 9 ≤ kind.value.toList.length

/-- `enqueue_lifecycle_job`. -/
def enqueueLifecycleJob (action : LifecycleAction) (user : ℕ) (s : World) :
    Except Exn (JobId × World) := do
  let message := "Já existe uma ação do servidor em andamento."
  if s.jobs.rows.any fun r => r.2.kind.likePalworld && r.2.status.isActive then
    .error (.conflict message)
  else
    let timeout ← lifecycleTimeout s action
    insertJob message (pendingJob s (.lifecycle action) false true .palworldLifecycle (some user)
      [("timeout_seconds", .int timeout)]) s

/-- `enqueue_assisted_shutdown`. -/
def enqueueAssistedShutdown (minutes : ℤ) (user : ℕ) (s : World) : Except Exn (JobId × World) := do
  let message := "Já existe uma ação do servidor em andamento."
  if minutes ∉ ([0, 1, 5, 10] : List ℤ) then
    .error (.fault .value)
  else
    ensureNoActive s .palworldLifecycle message
    let timeout ← lifecycleTimeout s .stop
    insertJob message
      (pendingJob s (.shutdown .assisted) (0 < minutes) true .palworldLifecycle (some user)
        [("countdown_minutes", .int minutes), ("remaining_seconds", .int (minutes * 60)),
         ("stop_timeout_seconds", .int timeout)]) s

/-- The source jobs that `enqueue_forced_shutdown` accepts for a signal. -/
def validForcedSource (signal : PalworldSignal) (source : Job) : Bool :=
  source.status == .failed && match signal with
    | .term => source.kind == .lifecycle .stop ||
        (source.kind == .shutdown .assisted && source.data.value "failure" == .str "stop_failed")
    | .kill => source.kind == .shutdown .forceTerm

/-- `enqueue_forced_shutdown`. -/
def enqueueForcedShutdown (source : JobId) (signal : PalworldSignal) (user : ℕ) (s : World) :
    Except Exn (JobId × World) := do
  let message := "Já existe uma ação do servidor em andamento."
  if !(s.jobs.get source).any (validForcedSource signal) then
    .error (.request "A etapa forçada exige uma falha anterior válida.")
  else
    ensureNoActive s .palworldLifecycle message
    let timeout ← lifecycleTimeout s .stop
    let kind := match signal with
      | .term => ShutdownJobKind.forceTerm
      | .kill => .forceKill
    insertJob message (pendingJob s (.shutdown kind) false true .palworldLifecycle (some user)
      [("source_job_id", .int source), ("timeout_seconds", .int timeout)]) s

/-- `enqueue_local_backup`. -/
def enqueueLocalBackup (trigger : String) (s : World) : Except Exn (JobId × World) :=
  if trigger ∉ ["MANUAL", "AUTOMATIC"] then
    .error (.fault .value)
  else
    insertJob "Já existe um backup local em andamento."
      (pendingJob s .localBackup true true .localBackup none [("trigger", .str trigger)]) s

/-- `RESTORE_CONFIRMATION`. -/
def restoreConfirmation : String := "RESTAURAR"

/-- The text of a location in a job's result. -/
def Location.text : Location → String
  | .local => "LOCAL"
  | .drive => "DRIVE"

/-- `_enqueue_restore`, for the two kinds of restore. -/
def enqueueRestore (location : Location) (recordId : ℕ) (confirmation : String) (s : World) :
    Except Exn (JobId × World) := do
  if confirmation ≠ restoreConfirmation then
    .error (.request "Digite RESTAURAR exatamente para confirmar.")
  else match s.backups.get recordId with
  | some record =>
      if record.location ≠ location ∨ !record.isValid ∨ record.sha256.isNone ∨
          record.sizeBytes.isNone then
        .error (.request "O backup selecionado não está disponível para Restore.")
      else
        ensureNoActive s .localRestore "Já existe um Restore em andamento."
        let stop ← lifecycleTimeout s .stop
        let start ← lifecycleTimeout s .start
        insertJob "Já existe um Restore em andamento."
          (pendingJob s (.restore location) false true .localRestore none
            [("backup_record_id", .int recordId), ("source_filename", .str record.filename),
             ("source_location", .str location.text), ("stop_timeout_seconds", .int stop),
             ("start_timeout_seconds", .int start), ("destructive_started", .bool false),
             ("requires_manual_review", .bool false)]) s
  | none => .error (.request "O backup selecionado não está disponível para Restore.")

/-- `_enqueue` of the Drive jobs. -/
def enqueueDrive (operation : DriveOperation) (key : CoordinationKey) (result : Dict)
    (cancellable : Bool) (s : World) : Except Exn (JobId × World) :=
  insertJob "Já existe uma operação do Drive para este backup."
    (pendingJob s (.drive operation) cancellable (operation != .check) key none result) s

/-- `enqueue_drive_check`. -/
def enqueueDriveCheck (s : World) : Except Exn (JobId × World) :=
  enqueueDrive .check .driveCheck [("operation", .str "CHECK")] false s

/-- Whether a valid record of a file is kept at a location. -/
def hasRecord (s : World) (location : Location) (filename : String) : Bool :=
  s.backups.rows.any fun r => r.2.location == location && r.2.filename == filename && r.2.isValid

/-- `enqueue_drive_upload`. -/
def enqueueDriveUpload (recordId : ℕ) (trigger : String) (s : World) :
    Except Exn (JobId × World) :=
  if trigger ∉ ["AUTOMATIC", "MANUAL"] then
    .error (.fault .value)
  else match s.backups.get recordId with
  | some record =>
      if !record.validAt .local then
        .error (.request "Backup local válido não encontrado.")
      else if hasRecord s .drive record.filename then
        .error (.request "Este backup já está no Google Drive.")
      else
        enqueueDrive .upload (.driveLocal recordId)
          [("operation", .str "UPLOAD"), ("backup_record_id", .int recordId),
           ("filename", .str record.filename), ("trigger", .str trigger)] true s
  | none => .error (.request "Backup local válido não encontrado.")

/-- `enqueue_drive_download`. -/
def enqueueDriveDownload (recordId : ℕ) (s : World) : Except Exn (JobId × World) :=
  match s.backups.get recordId with
  | some record =>
      if !record.validAt .drive then
        .error (.request "Backup remoto válido não encontrado.")
      else if hasRecord s .local record.filename then
        .error (.request "Este backup já está disponível localmente.")
      else
        enqueueDrive .download (.driveRemote recordId)
          [("operation", .str "DOWNLOAD"), ("backup_record_id", .int recordId),
           ("filename", .str record.filename)] true s
  | none => .error (.request "Backup remoto válido não encontrado.")

/-- `enqueue_drive_delete`. -/
def enqueueDriveDelete (recordId : ℕ) (s : World) : Except Exn (JobId × World) :=
  match s.backups.get recordId with
  | some record =>
      if !record.validAt .drive then
        .error (.request "Backup remoto válido não encontrado.")
      else
        enqueueDrive .delete (.driveRemote recordId)
          [("operation", .str "DELETE"), ("backup_record_id", .int recordId),
           ("filename", .str record.filename)] false s
  | none => .error (.request "Backup remoto válido não encontrado.")

/-- The conflict of the Update requests. -/
def updateConflict : String := "Já existe uma operação incompatível em andamento."

/-- `enqueue_update_check`. -/
def enqueueUpdateCheck (s : World) : Except Exn (JobId × World) := do
  ensureNoActive s .updateCheck updateConflict
  ensureNoActive s .palworldLifecycle updateConflict
  insertJob updateConflict (pendingJob s .updateCheck false false .updateCheck none []) s

/-- `_required_build_id`. -/
def requiredBuildId (d : Dict) (key : String) : Except Exn String :=
  match d.value key with
  | .str v =>
      if v.toList.all Text.isDecimal ∧ 1 ≤ v.length ∧ v.length ≤ 20 then .ok v
      else .error (.fault .value)
  | _ => .error (.fault .value)

/-- `latest_update_check`. -/
def latestUpdateCheck (s : World) : Option (JobId × Job) :=
  (s.jobs.select (fun _ job => job.kind == .updateCheck) fun x y => y.1 ≤ x.1).head?

/-- `enqueue_update`. -/
def enqueueUpdate (confirmation : String) (s : World) : Except Exn (JobId × World) := do
  if confirmation ≠ "ATUALIZAR" then
    .error (.request "Digite ATUALIZAR para confirmar.")
  else
    ensureNoActive s .updateCheck updateConflict
    ensureNoActive s .palworldLifecycle updateConflict
    match latestUpdateCheck s with
    | none => .error (.request "Verifique as atualizações antes de iniciar o Update.")
    | some (checkedId, checked) =>
        if checked.status ≠ .succeeded then
          .error (.request "Verifique as atualizações antes de iniciar o Update.")
        else if checked.data.value "update_available" ≠ .bool true then
          .error (.request "Não há uma atualização confirmada para instalar.")
        else if checked.data.value "disk_critical" = .bool true then
          .error (.request "O espaço livre está em nível crítico; o Update foi bloqueado.")
        else
          let installed ← requiredBuildId checked.data "installed_build_id"
          let available ← requiredBuildId checked.data "available_build_id"
          let minutes ← assistedShutdownDefault s
          let stop ← lifecycleTimeout s .stop
          let start ← lifecycleTimeout s .start
          let settings ← loadManagerSettings s
          insertJob updateConflict (pendingJob s .update true true .palworldLifecycle none
            [("checked_job_id", .int checkedId),
             ("requested_installed_build_id", .str installed),
             ("requested_available_build_id", .str available),
             ("countdown_minutes", .int minutes), ("stop_timeout_seconds", .int stop),
             ("start_timeout_seconds", .int start),
             ("disk_critical_gb", .int settings.diskCriticalGb.1)]) s

/-- `HOST_POWER_CONFIRMATIONS`. -/
def hostPowerConfirmation : HostPowerAction → String
  | .reboot => "REINICIAR UBUNTU"
  | .shutdown => "DESLIGAR UBUNTU"

/-- `enqueue_host_power_job`. -/
def enqueueHostPowerJob (action : HostPowerAction) (confirmation : String) (s : World) :
    Except Exn (JobId × World) := do
  let message := "Já existe uma ação de energia do host em andamento."
  if confirmation ≠ hostPowerConfirmation action then
    .error (.request ("Digite " ++ hostPowerConfirmation action ++ " para confirmar."))
  else
    ensureNoActive s .hostPower message
    let timeout ← lifecycleTimeout s .stop
    insertJob message (pendingJob s (.hostPower action) false true .hostPower none
      [("stop_timeout_seconds", .int timeout)]) s

/-- The condition under which an `UPDATE` of a cancellation finds its row. -/
def Job.acceptsCancel (job : Job) : Bool :=
  job.status.isActive && job.isCancellable && !job.cancelRequested

/-- `job.status = CANCELLED`, with the columns of a cancelled job. -/
def Job.cancel (result : Dict) (job : Job) : Job :=
  { job with
    status := .cancelled
    step := "CANCELLED"
    progress := 100
    isCancellable := false
    result := some result }

/-- The request of a cancellation: whether a row was found, and the job with the
request set.  `onPending` is what is done to a job that no worker has claimed. -/
def requestCancel (accepts : Job → Bool) (onPending : Job → Job) (j : JobId) (s : World) :
    Bool × World :=
  match s.jobs.get j with
  | some job =>
      if accepts job && job.acceptsCancel then
        (true, s.modifyJob j fun job =>
          let job := { job with cancelRequested := true }
          if job.status = .pending then onPending job else job)
      else (false, s)
  | none => (false, s)

/-- `request_backup_cancel`. -/
def requestBackupCancel (j : JobId) (s : World) : Bool × World :=
  requestCancel (fun job => job.kind == .localBackup) id j s

/-- `request_drive_cancel`. -/
def requestDriveCancel (j : JobId) (s : World) : Bool × World :=
  requestCancel (fun job => match job.kind with
    | .drive _ => true
    | _ => false) id j s

/-- `request_shutdown_cancel`; `owner` restricts it to the job's own user. -/
def requestShutdownCancel (j : JobId) (owner : Option ℕ) (s : World) : Bool × World :=
  requestCancel
    (fun job => job.kind == .shutdown .assisted &&
      owner.all fun user => job.requestedByUserId == some user)
    (fun job => job.cancel ([("cancelled", .bool true)] ++ job.data)) j s

/-- `request_update_cancel`. -/
def requestUpdateCancel (j : JobId) (s : World) : Bool × World :=
  requestCancel (fun job => job.kind == .update) (fun job => job.cancel job.data) j s

/-- `request_shutdown_now`. -/
def requestShutdownNow (j : JobId) (owner : Option ℕ) (s : World) : Bool × World :=
  match s.jobs.get j with
  | some job =>
      if job.kind == .shutdown .assisted && job.acceptsCancel && !job.executeNowRequested &&
          owner.all fun user => job.requestedByUserId == some user then
        (true, s.modifyJob j fun job => { job with executeNowRequested := true })
      else (false, s)
  | none => (false, s)

/-- A request to the web process. -/
inductive WebRequest where
  | lifecycle (action : LifecycleAction) (user : ℕ)
  | assistedShutdown (minutes : ℤ) (user : ℕ)
  | forcedShutdown (source : JobId) (signal : PalworldSignal) (user : ℕ)
  | localBackup (trigger : String)
  | restore (location : Location) (recordId : ℕ) (confirmation : String)
  | driveCheck
  | driveUpload (recordId : ℕ) (trigger : String)
  | driveDownload (recordId : ℕ)
  | driveDelete (recordId : ℕ)
  | updateCheck
  | update (confirmation : String)
  | hostPower (action : HostPowerAction) (confirmation : String)
  | backupCancel (j : JobId)
  | driveCancel (j : JobId)
  | shutdownCancel (j : JobId) (owner : Option ℕ)
  | updateCancel (j : JobId)
  | shutdownNow (j : JobId) (owner : Option ℕ)
  | settings (values : Dict)
  deriving DecidableEq, Repr

/-- What the web process answers. -/
inductive WebResponse where
  | enqueued (j : JobId)
  | answered (accepted : Bool)
  | refused (e : Exn)
  deriving DecidableEq, Repr

/-- The session of an `enqueue_*` function, rolled back when it raises. -/
def enqueueing (s : World) : Except Exn (JobId × World) → WebResponse × World
  | .ok (j, s') => (.enqueued j, s')
  | .error e => (.refused e, s)

/-- The session of a request that returns whether it was accepted. -/
def answering (r : Bool × World) : WebResponse × World := (.answered r.1, r.2)

/-- One request of the web process, as one transaction. -/
def handle (s : World) : WebRequest → WebResponse × World
  | .lifecycle action user => enqueueing s (enqueueLifecycleJob action user s)
  | .assistedShutdown minutes user => enqueueing s (enqueueAssistedShutdown minutes user s)
  | .forcedShutdown source signal user => enqueueing s (enqueueForcedShutdown source signal user s)
  | .localBackup trigger => enqueueing s (enqueueLocalBackup trigger s)
  | .restore location recordId confirmation =>
      enqueueing s (enqueueRestore location recordId confirmation s)
  | .driveCheck => enqueueing s (enqueueDriveCheck s)
  | .driveUpload recordId trigger => enqueueing s (enqueueDriveUpload recordId trigger s)
  | .driveDownload recordId => enqueueing s (enqueueDriveDownload recordId s)
  | .driveDelete recordId => enqueueing s (enqueueDriveDelete recordId s)
  | .updateCheck => enqueueing s (enqueueUpdateCheck s)
  | .update confirmation => enqueueing s (enqueueUpdate confirmation s)
  | .hostPower action confirmation => enqueueing s (enqueueHostPowerJob action confirmation s)
  | .backupCancel j => answering (requestBackupCancel j s)
  | .driveCancel j => answering (requestDriveCancel j s)
  | .shutdownCancel j owner => answering (requestShutdownCancel j owner s)
  | .updateCancel j => answering (requestUpdateCancel j s)
  | .shutdownNow j owner => answering (requestShutdownNow j owner s)
  | .settings values =>
      if (validateManagerSettings s.timezones values).isSome then
        (.answered true, { s with settings := values ++ s.settings })
      else
        (.answered false, s)

end PalworldManager
