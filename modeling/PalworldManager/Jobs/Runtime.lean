/-
# What a job's code does to the world

The executors run as bodies of atomic steps (`PalworldManager.Effects.Exec`)
over a `World`.  A *question* is a call to something outside the program, each
tagged with the job on whose behalf it is made: the file system, the Drive
client, the Palworld service, SteamCMD, the journal, the clock.  Every such call
may return anything of its type and may raise any `Fault`.  A *transaction* is a
`session_scope` block: it commits as a whole or, when its body raises, changes
nothing.

The exceptions that the jobs' code keeps for itself (`BackupCancelledError`,
`UpdateCancelledError`, `UpdateExecutionError`, and those of the database layer)
are not faults: no outside call raises them.

A loop of the source whose end is decided outside (a poll for a process, a wait
for a state) asks first for a `bound` on its iterations and stops for good when
it passes the bound.  As the bound is arbitrary, every finite behaviour of the
loop is one of the model.
-/

import PalworldManager.Effects.Exec
import PalworldManager.Jobs.Model
import PalworldManager.Outcomes

namespace PalworldManager

open Effects

/-- An exception that a call to the outside can raise. -/
inductive Fault where
  | os | value | runtime | assertion
  | backupValidation
  | googleDrive | googleDriveCancelled
  | restore (category message : String)
  | palworldRest | serviceControl | palworldLog | steamCmd | hostPowerControl
  | other
  deriving DecidableEq, Repr

/-- `GoogleDriveError`, of which `GoogleDriveCancelled` is a subclass. -/
def Fault.isGoogleDrive : Fault → Bool
  | .googleDrive | .googleDriveCancelled => true
  | _ => false

/-- The exceptions of the program's own code.  `request` and `conflict` are the
`…RequestError` and `…ConflictError` of the functions that enqueue jobs. -/
inductive Exn where
  | fault (f : Fault)
  | backupCancelled
  | backupConsistency
  | updateCancelled
  | updateExecution (category message : String)
  | noResultFound
  | integrityError
  | storedSettings
  | request (message : String)
  | conflict (message : String)
  | workerAlreadyRunning
  deriving DecidableEq, Repr

/-- `PalworldHealthState` (`health/palworld.py`). -/
inductive PalworldHealthState where
  | online | starting | degraded | offline | failure
  deriving DecidableEq, Repr

/-- `PalworldHealthState.value`. -/
def PalworldHealthState.value : PalworldHealthState → String
  | .online => "ONLINE"
  | .starting => "INICIANDO"
  | .degraded => "DEGRADADO"
  | .offline => "OFFLINE"
  | .failure => "FALHA"

/-- `LifecycleResult`; `succeeded` is `outcome is LifecycleOutcome.SUCCEEDED`. -/
structure LifecycleResult where
  succeeded : Bool
  finalState : PalworldHealthState
  timedOut : Bool
  deriving DecidableEq, Repr

/-- `SteamBuildInfo` (`updates/service.py`). -/
structure SteamBuildInfo where
  installedBuildId : String
  availableBuildId : String
  availableAt : Option String
  deriving DecidableEq, Repr

/-- `SteamBuildInfo.update_available`. -/
def SteamBuildInfo.updateAvailable (b : SteamBuildInfo) : Bool :=
  b.installedBuildId ≠ b.availableBuildId

/-- `LogEntry` (`logs/service.py`), as far as `is_critical_log` reads it. -/
structure LogEntry where
  occurredAt : ℕ
  message : String
  priority : Option ℕ
  deriving DecidableEq, Repr

/-- `DriveQuota` (`integrations/google_drive.py`). -/
structure DriveQuota where
  totalBytes : ℕ
  usedBytes : ℕ
  freeBytes : ℕ
  trashedBytes : ℕ
  deriving DecidableEq, Repr

/-- `DriveFile` (`integrations/google_drive.py`). -/
structure DriveFile where
  filename : String
  sizeBytes : ℕ
  sha256 : String
  deriving DecidableEq, Repr

/-- What `rclone lsjson --stat` may print: a description of a file, one without
a usable hash, or something that is no JSON object. -/
inductive RemoteStat where
  | file (f : DriveFile)
  | noHash
  | notAnObject
  deriving DecidableEq, Repr

/-- How a command that changes the remote ends.  A command that reports a
failure may still have had its effect. -/
inductive RemoteChange where
  | done
  | failed (fault : Fault) (happened : Bool)
  deriving DecidableEq, Repr

/-- Whether the remote was changed. -/
def RemoteChange.happened : RemoteChange → Bool
  | .done => true
  | .failed _ b => b

/-- The identity of a new local backup: when it was made, that time as
`strftime` prints it, and its UUID in hexadecimal. -/
structure BackupIdentity where
  createdAt : ℕ
  stamp : String
  backupId : String
  deriving DecidableEq, Repr

/-- Which code looks at a managed artifact: the retention, the service that has
just published it, an executor that could not register it, or a transfer that
reads it. -/
inductive ArtifactSite where
  | retention | publication | executor | transfer
  deriving DecidableEq, Repr

/-- `PalworldSignal`. -/
inductive PalworldSignal where
  | term | kill
  deriving DecidableEq, Repr

/-- A yes-or-no question to the file system. -/
inductive Probe where
  | controlledDirectory
  | present
  | regularFile
  deriving DecidableEq, Repr

/-- A call to the file system or the payload source that returns nothing; the last
is what a session that registers a backup does once the retention is over: its audit
event, and the commit itself, which may fail. -/
inductive StorageOp where
  | makeDirectories
  | makeWorkingDirectory
  | requestSafeSave
  | stagePalworldPayload
  | stageManagerPayload
  | buildManifest
  | writeArchive
  | replace
  | chmod
  | remoteMkdir
  | remoteCopy
  | commitRegistration
  deriving DecidableEq, Repr

/-- A call to the outside. -/
inductive Call where
  | now
  | bound
  | never
  | createLog
  | appendLog (message : String)
  | identity
  | storage (op : StorageOp)
  | probe (p : Probe)
  | digest
  | size
  | archive
  | resolve (site : ArtifactSite) (path : String)
  | isFile (site : ArtifactSite) (path : String)
  | unlink (site : ArtifactSite) (path : String)
  | health
  | lifecycle (action : LifecycleAction) (timeout : ℤ)
  | onlinePlayerCount
  | announce (message : String)
  | sendSignal (signal : PalworldSignal)
  | restPortOpen
  | hostPower (action : HostPowerAction)
  | freeBytes
  | steamCheck
  | applyUpdate
  | history (limit : ℕ)
  | prepare (recordId : ℤ)
  | prepareRemote (recordId : ℤ)
  | apply
  | quota
  | listFiles
  | stat (name : String)
  | moveto (source target : String)
  | deletefile (name : String)
  deriving DecidableEq, Repr

/-- What a call may answer.  `JobLogStore.append` raises nothing but `OSError` and
`ValueError`, and every caller catches both, so its answer is whether the line was
written. -/
abbrev Reply : Call → Type
  | .now | .bound => ℕ
  | .never => Empty
  | .createLog => Except Fault String
  | .appendLog _ => Bool
  | .identity => BackupIdentity
  | .storage _ => Except Fault Unit
  | .probe _ => Except Fault Bool
  | .digest => Except Fault String
  | .size => Except Fault ℕ
  | .archive => Except Fault (Option String)
  | .resolve _ _ | .isFile _ _ => Except Fault Bool
  | .unlink _ _ => Except Fault Unit
  | .health => Except Fault PalworldHealthState
  | .lifecycle _ _ => Except Fault LifecycleResult
  | .onlinePlayerCount => Except Fault ℕ
  | .announce _ | .sendSignal _ => Except Fault Unit
  | .restPortOpen => Except Fault Bool
  | .hostPower _ => Except Fault Unit
  | .freeBytes => Except Fault ℕ
  | .steamCheck => Except Fault SteamBuildInfo
  | .applyUpdate => Except Fault Unit
  | .history _ => Except Fault (List LogEntry)
  | .prepare _ | .prepareRemote _ | .apply => Except Fault Unit
  | .quota => Except Fault DriveQuota
  | .listFiles => Except Fault ℕ
  | .stat _ => Except Fault RemoteStat
  | .moveto _ _ | .deletefile _ => RemoteChange

/-- A call and the job on whose behalf it is made. -/
abbrev Asked := JobId × Call

/-- `CountdownDirective` (`shutdown/service.py`). -/
inductive CountdownDirective where
  | continue | cancel | executeNow
  deriving DecidableEq, Repr

/-- What a transaction leaves in the trace.

* `write j`: columns of job `j` other than its status and the two requests;
* `claim`: the job that `claim_next_job` returned;
* `finish j found new`: the status of job `j` set to `new`, having been `found`;
* `staged j id`: the record `id` of a backup made for job `j` flushed, within a
  session that is still open;
* `record j id`: the record `id` of a backup made for job `j` committed by a
  session that ends no job;
* `reported j id`: the record `id` named in the result of job `j`;
* `records j`: backup records deleted on behalf of job `j`;
* `guard j cancellable passed`: the read of a checkpoint of job `j`, and whether
  it lets the job go on;
* `checkpoint j cancellable pending`: the write of that checkpoint, with
  `pending` whether a cancellation was requested at that moment;
* `irreversible j d`: `mark_irreversible` of job `j` returned `d`;
* `published j location path`: a backup file appeared under its final name;
* `removed j site path`: a local backup file was unlinked;
* `deleted j name`: a remote file was deleted, or the attempt had no effect;
* `release j`: the maintenance lock of job `j` deleted;
* `recover` and `lease`: the recovery of a starting worker, and its lease. -/
inductive Label where
  | read
  | write (j : JobId)
  | claim (j : Option JobId)
  | finish (j : JobId) (found new : JobStatus)
  | staged (j : JobId) (id : ℕ)
  | record (j : JobId) (id : ℕ)
  | reported (j : JobId) (id : ℕ)
  | guard (j : JobId) (cancellable passed : Bool)
  | checkpoint (j : JobId) (cancellable pending : Bool)
  | irreversible (j : JobId) (d : CountdownDirective)
  | records (j : JobId)
  | published (j : JobId) (location : Location) (path : String)
  | removed (j : JobId) (site : ArtifactSite) (path : String)
  | deleted (j : JobId) (name : String)
  | release (j : JobId)
  | recover
  | lease
  deriving DecidableEq, Repr

/-- A step of a worker as the trace shows it. -/
abbrev Ev := Event Label Asked (fun a => Reply a.2)

/-- A body of the workers' code, with local variables `L`. -/
abbrev Py (L α : Type) := Exec World Label Asked (fun a => Reply a.2) Exn L α

section

variable {L α β : Type}

/-- Call the outside for job `j`. -/
def ask (j : JobId) (c : Call) : Py L (Reply c) := Exec.ask (j, c)

/-- The value a call returned, or the exception it raised. -/
def ofReply (r : Except Fault α) : Py L α := Exec.ofExcept (r.mapError Exn.fault)

/-- A loop that has passed its bound does not go on. -/
def hang (j : JobId) : Py L α := do
  let e : Empty ← ask j .never
  nomatch e

/-- `with session_scope(...)`: what `f` computes is committed, unless it raises. -/
def session (f : World → Except Exn (α × World)) (label : α → Label) : Py L α := do
  let r ← Exec.tx
    (fun s => match f s with
      | .ok (a, s') => (.ok a, s')
      | .error e => (.error e, s))
    (fun
      | .ok a => label a
      | .error _ => .read)
  Exec.ofExcept r

/-- A session that only reads. -/
def query (f : World → Except Exn α) : Py L α :=
  session (fun s => (f s).map fun a => (a, s)) fun _ => .read

/-- `session.get_one(Job, job_id)`. -/
def World.getOne (s : World) (j : JobId) : Except Exn Job :=
  match s.jobs.get j with
  | some job => .ok job
  | none => .error .noResultFound

/-- `session.get_one(BackupRecord, record_id)`. -/
def World.getOneRecord (s : World) (id : ℕ) : Except Exn BackupRecord :=
  match s.backups.get id with
  | some record => .ok record
  | none => .error .noResultFound

/-- `_append_log`. -/
def appendLog (j : JobId) (message : String) : Py L Unit := do
  let _ ← ask j (.appendLog message)

/-- A session that loads a job and assigns columns other than its status. -/
def updateJob (j : JobId) (write : Job → Job) : Py L Unit :=
  session (fun s => (s.getOne j).map fun _ => ((), s.modifyJob j write)) fun _ => .write j

/-- A session that loads a job and ends it. -/
def finishJob (j : JobId) (write : Job → Job) : Py L Unit := do
  let _ ← session
    (fun s => (s.getOne j).map fun job => ((job.status, (write job).status), s.modifyJob j write))
    fun p => .finish j p.1 p.2
  pure ()

end

end PalworldManager
