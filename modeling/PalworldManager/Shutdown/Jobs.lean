/-
# The jobs that act on the server at once

The lifecycle jobs (`lifecycle/jobs.py`), the assisted and forced shutdowns
(`shutdown/jobs.py`) and the host power jobs (`host_power/jobs.py`), each with
the fallback by which the worker ends a job that raised.
-/

import PalworldManager.Shutdown.Service
import PalworldManager.Requests

namespace PalworldManager

open Effects

variable {L : Type}

/-- `_required_int`, `_job_timeout` and `_stop_timeout`: an integer of a job's
result within bounds. -/
def requiredInt (d : Dict) (key : String) (minimum maximum : ℤ) : Except Exn ℤ :=
  match (d.value key).asInt with
  | some i => if minimum ≤ i ∧ i ≤ maximum then .ok i else .error (.fault .value)
  | none => .error (.fault .value)

/-- What `execute_lifecycle_job` checks and reads of its job. -/
def lifecycleRequest (j : JobId) (s : World) : Except Exn (LifecycleAction × ℤ) := do
  let job ← s.getOne j
  match job.kind, job.status with
  | .lifecycle action, .running => do
      let maximum := match action with
        | .stop => 300
        | _ => 600
      let timeout ← requiredInt job.data "timeout_seconds" 1 maximum
      pure (action, timeout)
  | _, _ => .error (.fault .value)

/-- The columns of a finished lifecycle job. -/
def Job.finishLifecycle (timeout : ℤ) (result : LifecycleResult) (job : Job) : Job :=
  { job with
    status := if result.succeeded then .succeeded else .failed
    step := if result.succeeded then "COMPLETED" else "FAILED"
    progress := 100
    result := some [("timeout_seconds", .int timeout), ("timed_out", .bool result.timedOut),
      ("final_state", .str result.finalState.value)] }

/-- `execute_lifecycle_job`, in the session that the worker opens for it. -/
def executeLifecycleJob (j : JobId) : Py L Unit := do
  let (action, timeout) ← query (lifecycleRequest j)
  let result ← ofReply (← ask j (.lifecycle action timeout))
  finishJob j (Job.finishLifecycle timeout result)

/-- `fail_lifecycle_job`. -/
def failLifecycleJob (j : JobId) : Py L Unit :=
  finishJob j fun job =>
    { job with
      status := .failed
      step := "FAILED"
      progress := 100
      result := some [("unexpected_failure", .bool true)] }

/-- The status that an outcome of a shutdown gives its job. -/
def ShutdownOutcome.status : ShutdownOutcome → JobStatus
  | .succeeded => .succeeded
  | .failed => .failed
  | .cancelled => .cancelled

/-- The step that an outcome of a shutdown gives its job. -/
def ShutdownOutcome.step : ShutdownOutcome → String
  | .succeeded => "COMPLETED"
  | .failed => "FAILED"
  | .cancelled => "CANCELLED"

/-- The columns of a finished shutdown job. -/
def Job.finishShutdown (result : AssistedShutdownResult) (job : Job) : Job :=
  { job with
    status := result.outcome.status
    step := result.outcome.step
    progress := 100
    isCancellable := false
    result := some
      ([("online_players", result.onlinePlayers.elim .null fun n => .int n),
        ("timed_out", .bool result.timedOut),
        ("final_state", result.finalState.elim .null fun x => .str x.value),
        ("failure", result.failure.elim .null .str)] ++ job.data) }

/-- `_complete_shutdown_job`. -/
def completeShutdownJob (j : JobId) (result : AssistedShutdownResult) : Py L Unit :=
  finishJob j (Job.finishShutdown result)

/-- `fail_shutdown_job`. -/
def failShutdownJob (j : JobId) : Py L Unit :=
  completeShutdownJob j
    { outcome := .failed
      onlinePlayers := none
      timedOut := false
      finalState := some .failure
      failure := some "unexpected_failure" }

/-- What a tick of a countdown answers; `executeNow` says whether the control
heeds the request to stop at once. -/
def Job.directive (executeNow : Bool) (job : Job) : CountdownDirective :=
  if job.cancelRequested then .cancel
  else if executeNow && job.executeNowRequested then .executeNow
  else .continue

/-- The columns that a tick of a countdown writes; `base` and `span` are the part
of the progress that the countdown takes. -/
def Job.tick (base span remaining total : ℕ) (job : Job) : Job :=
  { job with
    step := "COUNTDOWN"
    result := some ([("remaining_seconds", .int remaining)] ++ job.data)
    progress := base + span * (total - remaining) / total }

/-- `update` of both controls. -/
def countdownUpdate (j : JobId) (base span : ℕ) (executeNow : Bool) (remaining total : ℕ) :
    Py L CountdownDirective :=
  session
    (fun s => (s.getOne j).map fun job =>
      (job.directive executeNow, s.modifyJob j (Job.tick base span remaining total)))
    fun _ => .write j

/-- The columns that `mark_irreversible` writes. -/
def Job.seal (step : String) (progress : ℕ) (job : Job) : Job :=
  { job with
    isCancellable := false
    step := step
    progress := progress
    result := some ([("remaining_seconds", .int 0)] ++ job.data) }

/-- `mark_irreversible` of both controls: one conditional update turns
cancellation off, and where it finds no row because a cancellation was requested
the countdown is cancelled. -/
def markIrreversible (j : JobId) (step : String) (progress : ℕ) : Py L CountdownDirective :=
  session
    (fun s => (s.getOne j).map fun job =>
      if !(job.isCancellable && !job.cancelRequested) && job.cancelRequested then
        (.cancel, s)
      else
        (.continue, s.modifyJob j (Job.seal step progress)))
    fun d => .irreversible j d

/-- `DatabaseCountdownControl`. -/
def databaseCountdownControl (j : JobId) : CountdownControl L where
  update := countdownUpdate j 5 75 true
  markIrreversible := markIrreversible j "IRREVERSIBLE" 80

/-- What `execute_assisted_shutdown_job` reads of its job. -/
def assistedRequest (j : JobId) (s : World) : Except Exn (ℤ × ℤ) := do
  let job ← s.getOne j
  let minutes ← requiredInt job.data "countdown_minutes" 0 10
  let timeout ← requiredInt job.data "stop_timeout_seconds" 1 300
  pure (minutes, timeout)

/-- `execute_assisted_shutdown_job`. -/
def executeAssistedShutdownJob (j : JobId) : Py L Unit := do
  let (minutes, timeout) ← query (assistedRequest j)
  let result ← assistedShutdown j minutes timeout (databaseCountdownControl j)
  completeShutdownJob j result

/-- What `execute_forced_shutdown_job` reads of its job. -/
def forcedRequest (j : JobId) (s : World) : Except Exn (PalworldSignal × ℤ) := do
  let job ← s.getOne j
  match job.kind with
  | .shutdown kind => do
      let timeout ← requiredInt job.data "timeout_seconds" 1 300
      pure (if kind = .forceTerm then .term else .kill, timeout)
  | _ => .error (.fault .value)

/-- `execute_forced_shutdown_job`. -/
def executeForcedShutdownJob (j : JobId) : Py L Unit := do
  let (signal, timeout) ← query (forcedRequest j)
  let result ← forcedShutdown j signal timeout.toNat
  completeShutdownJob j result

/-- `ImmediateShutdownControl`. -/
def immediateShutdownControl : CountdownControl L where
  update := fun _ _ => pure .continue
  markIrreversible := pure .continue

/-- What `HostPowerJobExecutor.execute` reads of its job. -/
def hostPowerRequest (j : JobId) (s : World) : Except Exn (HostPowerAction × ℤ) := do
  let job ← s.getOne j
  match job.kind, job.status with
  | .hostPower action, .running => do
      let timeout ← requiredInt job.data "stop_timeout_seconds" 1 300
      pure (action, timeout)
  | _, _ => .error (.fault .value)

/-- The columns of a finished host power job. -/
def Job.finishHostPower (succeeded : Bool) (initial : Option PalworldHealthState)
    (handling : String) (failure : Option String) (requested : Bool) (job : Job) : Job :=
  { job with
    status := if succeeded then .succeeded else .failed
    step := if succeeded then "COMPLETED" else "FAILED"
    progress := 100
    isCancellable := false
    result := some
      ([("palworld_initial_state", initial.elim .null fun x => .str x.value),
        ("palworld_handling", .str handling), ("host_command_requested", .bool requested),
        ("failure", failure.elim .null .str)] ++ job.data) }

/-- The request to the host, after the server is known to be down. -/
def requestHostPower (j : JobId) (action : HostPowerAction) (initial : PalworldHealthState)
    (handling : String) : Py L Unit := do
  updateJob j fun job =>
    { job with step := "REQUESTING_HOST_POWER", progress := 90, isCancellable := false }
  let requested ← Exec.tryCatch
    (do
      ofReply (← ask j (.hostPower action))
      pure true)
    fun e => if e = .fault .hostPowerControl then pure false else Exec.raise e
  if requested then
    finishJob j (Job.finishHostPower true (some initial) handling none true)
  else
    finishJob j
      (Job.finishHostPower false (some initial) handling (some "host_power_request_failed") false)

/-- `HostPowerJobExecutor.execute`. -/
def executeHostPower (j : JobId) : Py L Unit := do
  let (action, timeout) ← session
    (fun s => (hostPowerRequest j s).map fun r => (r, s.modifyJob j fun job =>
      { job with step := "CHECKING_PALWORLD", progress := 10 }))
    fun _ => .write j
  let initial ← ofReply (← ask j .health)
  if initial = .offline then
    requestHostPower j action initial "already_offline"
  else do
    updateJob j fun job => { job with step := "STOPPING_PALWORLD", progress := 30 }
    let result ← assistedShutdown j 0 timeout immediateShutdownControl
    if result.outcome = .succeeded then
      requestHostPower j action initial "stopped"
    else
      finishJob j
        (Job.finishHostPower false (some initial) "failed" (some "palworld_shutdown_failed") false)

/-- The state that a job's result names, if it names one. -/
def storedHealthState (d : Dict) : Option PalworldHealthState :=
  [PalworldHealthState.online, .starting, .degraded, .offline, .failure].find? fun x =>
    d.value "palworld_initial_state" == .str x.value

/-- `fail_unexpected` of the host power jobs. -/
def failHostPower (j : JobId) : Py L Unit := do
  let initial ← query fun s => do
    let job ← s.getOne j
    match job.kind with
    | .hostPower _ => .ok (storedHealthState job.data)
    | _ => .error (.fault .value)
  finishJob j (Job.finishHostPower false initial "unknown" (some "unexpected_failure") false)

end PalworldManager
