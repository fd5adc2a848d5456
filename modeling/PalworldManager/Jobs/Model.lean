/-
# The data the manager keeps

The tables of `db/models/jobs.py` and `db/models/backups.py`, the application
settings, and the two stores of backup files that the tables describe: the
local backup directory and the namespace on the remote.  A `World` is all of
it, together with the clock the lease of the worker is measured by.

A job's `result` column is a JSON object, kept as a `Dict`: the first entry
under a key is the value, so that `new ++ old` is Python's `{**old, **new}`.
Columns that no modelled function reads back (`claimed_at`, `started_at`,
`finished_at`, the audit and notification tables) are left out.
-/

import Mathlib.Data.Rat.Defs
import PalworldManager.Effects.Table

namespace PalworldManager

open Effects

/-- `LifecycleAction` (`lifecycle/service.py`). -/
inductive LifecycleAction where
  | start | stop | restart
  deriving DecidableEq, Repr

/-- `ShutdownJobKind` (`shutdown/jobs.py`). -/
inductive ShutdownJobKind where
  | assisted | forceTerm | forceKill
  deriving DecidableEq, Repr

/-- Where a backup is stored; also which of the two restore kinds a job is. -/
inductive Location where
  | local | drive
  deriving DecidableEq, Repr

/-- The members of `DRIVE_JOB_KINDS` (`backups/drive_jobs.py`). -/
inductive DriveOperation where
  | check | upload | download | delete
  deriving DecidableEq, Repr

/-- `HostPowerAction` (`system/host_power.py`). -/
inductive HostPowerAction where
  | reboot | shutdown
  deriving DecidableEq, Repr

/-- The kinds of jobs, grouped as the dispatch of `process_next` groups them. -/
inductive JobKind where
  | lifecycle (action : LifecycleAction)
  | shutdown (kind : ShutdownJobKind)
  | localBackup
  | restore (location : Location)
  | drive (operation : DriveOperation)
  | updateCheck
  | update
  | hostPower (action : HostPowerAction)
  deriving DecidableEq, Repr

/-- The text of the `kind` column. -/
def JobKind.value : JobKind → String
  | .lifecycle .start => "PALWORLD_START"
  | .lifecycle .stop => "PALWORLD_STOP"
  | .lifecycle .restart => "PALWORLD_RESTART"
  | .shutdown .assisted => "PALWORLD_ASSISTED_SHUTDOWN"
  | .shutdown .forceTerm => "PALWORLD_FORCE_SIGTERM"
  | .shutdown .forceKill => "PALWORLD_FORCE_SIGKILL"
  | .localBackup => "LOCAL_BACKUP"
  | .restore .local => "LOCAL_RESTORE"
  | .restore .drive => "REMOTE_RESTORE"
  | .drive .check => "DRIVE_CHECK"
  | .drive .upload => "DRIVE_UPLOAD"
  | .drive .download => "DRIVE_DOWNLOAD"
  | .drive .delete => "DRIVE_DELETE"
  | .updateCheck => "PALWORLD_UPDATE_CHECK"
  | .update => "PALWORLD_UPDATE"
  | .hostPower .reboot => "HOST_REBOOT"
  | .hostPower .shutdown => "HOST_SHUTDOWN"

/-- The `status` column (`jobs/service.py`). -/
inductive JobStatus where
  | pending | running | succeeded | failed | cancelled | interrupted
  deriving DecidableEq, Repr

/-- `ACTIVE_JOB_STATUSES`. -/
def JobStatus.isActive : JobStatus → Bool
  | .pending | .running => true
  | _ => false

/-- `TERMINAL_JOB_STATUSES`. -/
def JobStatus.isTerminal : JobStatus → Bool
  | .succeeded | .failed | .cancelled | .interrupted => true
  | _ => false

/-- A status is final or active. -/
@[simp]
theorem JobStatus.isTerminal_eq_not_isActive (x : JobStatus) : x.isTerminal = !x.isActive := by
  cases x <;> rfl

/-- The `coordination_key` column: at most one active job has each key. -/
inductive CoordinationKey where
  | palworldLifecycle
  | localBackup
  | localRestore
  | driveCheck
  | driveLocal (recordId : ℕ)
  | driveRemote (recordId : ℕ)
  | updateCheck
  | hostPower
  deriving DecidableEq, Repr

/-- A JSON value of a job's result or of a setting, but for arrays and objects. -/
inductive Value where
  | null
  | bool (b : Bool)
  | int (i : ℤ)
  | float (printed : String) (number : ℚ)
  | str (s : String)
  deriving DecidableEq, Repr

/-- A JSON object; the first entry under a key counts. -/
abbrev Dict := List (String × Value)

/-- `d.get(key)`. -/
def Dict.value (d : Dict) (key : String) : Value := (d.lookup key).getD .null

/-- A key that an update does not have keeps its value. -/
theorem Dict.value_append {d d' : Dict} {key : String} (h : key ∉ d.map Prod.fst) :
    Dict.value (d ++ d') key = Dict.value d' key := by
  have hnone : d.lookup key = none := by
    rw [List.lookup_eq_none_iff]
    intro r hr
    refine bne_iff_ne.mpr fun hkey => h (List.mem_map.mpr ⟨r, hr, hkey.symm⟩)
  rw [Dict.value, Dict.value, List.lookup_append, hnone]
  rfl

/-- An integer that is not a boolean: `isinstance(v, int) and not isinstance(v, bool)`. -/
def Value.asInt : Value → Option ℤ
  | .int i => some i
  | _ => none

/-- A string: `isinstance(v, str)`. -/
def Value.asStr : Value → Option String
  | .str s => some s
  | _ => none

/-- `str(v)`. -/
def Value.text : Value → String
  | .null => "None"
  | .bool true => "True"
  | .bool false => "False"
  | .int i => toString i
  | .float printed _ => printed
  | .str s => s

/-- The number that a value counts as where values are compared; a boolean is 0 or 1. -/
def Value.number : Value → Option ℚ
  | .bool b => some (if b then 1 else 0)
  | .int i => some i
  | .float _ number => some number
  | _ => none

/-- `a == b`. -/
def Value.pyEq (a b : Value) : Bool :=
  match a.number, b.number with
  | some x, some y => x == y
  | none, none => a == b
  | _, _ => false

/-- A job identifier. -/
abbrev JobId := ℕ

/-- The identity of a worker process, `host:pid`. -/
abbrev WorkerId := String

/-- A row of `jobs`, without its identifier. -/
structure Job where
  kind : JobKind
  status : JobStatus
  step : String
  progress : ℕ
  isCancellable : Bool
  cancelRequested : Bool
  executeNowRequested : Bool
  requiresMaintenanceLock : Bool
  coordinationKey : Option CoordinationKey
  requestedByUserId : Option ℕ
  claimedBy : Option WorkerId
  createdAt : ℕ
  result : Option Dict
  logPath : Option String
  deriving DecidableEq, Repr

/-- `job.result or {}`. -/
def Job.data (job : Job) : Dict := job.result.getD []

/-- The row of `maintenance_locks` under the key `GLOBAL`. -/
structure MaintenanceLock where
  jobId : JobId
  workerId : WorkerId
  deriving DecidableEq, Repr

/-- The row of `worker_heartbeats` under the key `PRIMARY`. -/
structure WorkerHeartbeat where
  workerId : WorkerId
  startedAt : ℕ
  heartbeatAt : ℕ
  deriving DecidableEq, Repr

/-- A row of `backup_records`, without its identifier.  `VALID` is the only
status the program writes; `isValid` is `status == "VALID"`. -/
structure BackupRecord where
  jobId : Option JobId
  filename : String
  location : Location
  isValid : Bool
  sha256 : Option String
  sizeBytes : Option ℕ
  storagePath : String
  createdAt : ℕ
  deriving DecidableEq, Repr

/-- Everything the program keeps.  `localFiles` and `remoteFiles` say which
managed backup files exist under their final names in the local backup
directory and on the remote, and which job put each there. -/
structure World where
  jobs : Table Job
  lock : Option MaintenanceLock
  heartbeat : Option WorkerHeartbeat
  backups : Table BackupRecord
  settings : Dict
  timezones : List String
  localFiles : String → Option JobId
  remoteFiles : String → Option JobId
  now : ℕ

namespace World

/-- Update the row of one job. -/
def modifyJob (s : World) (j : JobId) (f : Job → Job) : World :=
  { s with jobs := s.jobs.modify j f }

/-- A change of a job leaves the lock. -/
@[simp]
theorem modifyJob_lock (s : World) (j : JobId) (f : Job → Job) :
    (s.modifyJob j f).lock = s.lock := rfl

/-- A change of a job leaves the records. -/
@[simp]
theorem modifyJob_backups (s : World) (j : JobId) (f : Job → Job) :
    (s.modifyJob j f).backups = s.backups := rfl

/-- A change of a job leaves the local files. -/
@[simp]
theorem modifyJob_localFiles (s : World) (j : JobId) (f : Job → Job) :
    (s.modifyJob j f).localFiles = s.localFiles := rfl

/-- A change of a job leaves the remote files. -/
@[simp]
theorem modifyJob_remoteFiles (s : World) (j : JobId) (f : Job → Job) :
    (s.modifyJob j f).remoteFiles = s.remoteFiles := rfl

/-- The job that is changed. -/
@[simp]
theorem modifyJob_get_self (s : World) (j : JobId) (f : Job → Job) :
    (s.modifyJob j f).jobs.get j = (s.jobs.get j).map f :=
  Table.get_modify_self _ _ _

/-- The other jobs stay. -/
@[simp]
theorem modifyJob_get_ne (s : World) {i j : JobId} (h : i ≠ j) (f : Job → Job) :
    (s.modifyJob j f).jobs.get i = s.jobs.get i :=
  Table.get_modify_ne _ h _

end World

end PalworldManager
