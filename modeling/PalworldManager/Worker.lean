/-
# One round of the worker

`LifecycleJobWorker` (`lifecycle/worker.py`): `process_next` claims a job, runs
the executor of its kind, ends it where an executor leaves that to the worker,
and releases the maintenance lock.

The claim and the creation of the job's log are one session.  The answer of the
log store is asked for before it, and is of no consequence when no job is
claimed.
-/

import PalworldManager.Drive.Jobs
import PalworldManager.Jobs.Service
import PalworldManager.Updates.Jobs

namespace PalworldManager

open Effects Text

variable {L : Type}

/-- What a worker was made with: its identity, which executors it has, and the
two switches of these. -/
structure WorkerConfig where
  workerId : WorkerId
  hasShutdown : Bool
  hasBackup : Bool
  hasRestore : Bool
  hasDrive : Bool
  hasUpdate : Bool
  hasHostPower : Bool
  automaticDriveUploads : Bool
  restoreDriveService : Bool
  deriving DecidableEq, Repr

/-- The worker that `worker.py` makes. -/
def WorkerConfig.standard (workerId : WorkerId) : WorkerConfig where
  workerId := workerId
  hasShutdown := true
  hasBackup := true
  hasRestore := true
  hasDrive := true
  hasUpdate := true
  hasHostPower := true
  automaticDriveUploads := true
  restoreDriveService := true

/-- `_supported_kinds`. -/
def WorkerConfig.supports (cfg : WorkerConfig) : JobKind → Bool
  | .lifecycle _ => true
  | .shutdown _ => cfg.hasShutdown
  | .localBackup => cfg.hasBackup
  | .restore _ => cfg.hasRestore
  | .drive _ => cfg.hasDrive
  | .updateCheck | .update => cfg.hasUpdate
  | .hostPower _ => cfg.hasHostPower

/-- The session that claims a job and opens its log. -/
def claimJob (cfg : WorkerConfig) (log : Except Fault String) (s : World) :
    Except Exn (Option (JobId × JobKind) × World) :=
  match claimNextJob cfg.workerId cfg.supports s, log with
  | (none, s'), _ => .ok (none, s')
  | (some (j, job), s'), .ok path =>
      .ok (some (j, job.kind), s'.modifyJob j fun job => { job with logPath := some path })
  | (some _, _), .error f => .error (.fault f)

/-- The line that opens the log of a kind of job. -/
def openingLine : JobKind → Option String
  | .localBackup => some "Validação de consistência e backup local iniciados."
  | .restore .drive => some "Download e validação do Restore remoto iniciados."
  | .restore .local => some "Validação integral e backup preventivo do Restore iniciados."
  | .drive _ => some "Operação gerenciada no Google Drive iniciada."
  | .updateCheck | .update => some "Operação manual de Update iniciada."
  | .hostPower _ => some "Validação do Palworld e controle de energia do Ubuntu iniciados."
  | _ => none

/-- The executor of a kind of job. -/
def executor [Unicode] (cfg : WorkerConfig) (j : JobId) : JobKind → Py L Unit
  | .localBackup => executeLocalBackup cfg.automaticDriveUploads j
  | .restore _ => executeRestore cfg.restoreDriveService j
  | .drive _ => executeDrive j
  | .updateCheck | .update => executeUpdateJob j
  | .hostPower _ => executeHostPower j
  | .shutdown .assisted => executeAssistedShutdownJob j
  | .shutdown _ => executeForcedShutdownJob j
  | .lifecycle _ => executeLifecycleJob j

/-- How the worker ends a job whose executor raised. -/
def fallback (j : JobId) : JobKind → Py L Unit
  | .updateCheck | .update => failUnexpectedUpdate j
  | .hostPower _ => failHostPower j
  | .localBackup | .restore _ | .drive _ => pure ()
  | .shutdown _ => failShutdownJob j
  | .lifecycle _ => failLifecycleJob j

/-- The opening lines of a job's log. -/
def openLog (j : JobId) (kind : JobKind) : Py L Unit := do
  appendLog j "Execução iniciada."
  match openingLine kind with
  | some line => appendLog j line
  | none => pure ()

/-- The `try` clause. -/
def runExecutor [Unicode] (cfg : WorkerConfig) (j : JobId) (kind : JobKind) : Py L Unit := do
  openLog j kind
  executor cfg j kind

/-- The `else` clause: the closing line of the log. -/
def closeLog (j : JobId) : Py L Unit := do
  let status ← query fun s => (s.getOne j).map Job.status
  appendLog j (if status = .succeeded then "Execução finalizada."
    else "Execução finalizada com falha controlada.")

/-- The `finally` clause. -/
def releaseLock (j : JobId) : Py L Unit :=
  session (fun s => .ok ((), releaseMaintenanceLock j s)) fun _ => .release j

/-- `process_next`, once a job is claimed, but for its `finally` clause. -/
def runClaimed [Unicode] (cfg : WorkerConfig) (j : JobId) (kind : JobKind) : Py L Unit := do
  let finished ← Exec.tryCatch
    (do
      runExecutor cfg j kind
      pure true)
    fun _ => do
      appendLog j "Execução falhou de forma inesperada."
      fallback j kind
      pure false
  if finished then closeLog j else pure ()

/-- `process_next`, once a job is claimed. -/
def processClaimed [Unicode] (cfg : WorkerConfig) (j : JobId) (kind : JobKind) : Py L Unit :=
  Exec.ensuring (runClaimed cfg j kind) (releaseLock j)

/-- `process_next`: whether a job was claimed. -/
def processNext [Unicode] (cfg : WorkerConfig) : Py L Bool := do
  let log : Except Fault String ← ask 0 .createLog
  match ← session (claimJob cfg log) (fun c => .claim (c.map Prod.fst)) with
  | none => pure false
  | some (j, kind) => do
      processClaimed cfg j kind
      pure true

end PalworldManager
