/-
# Claiming, locking and recovering jobs

`jobs/service.py` and the lease of `jobs/heartbeat.py`.  Each function is the
effect of its statements on the world; the sessions that commit them are in the
modules that call them.
-/

import PalworldManager.Jobs.Runtime

namespace PalworldManager

open Effects

/-- `_release_terminal_locks`: the lock goes when its job is in a terminal
status. -/
def releaseTerminalLocks (s : World) : World :=
  { s with lock := s.lock.filter fun l =>
      !(s.jobs.get l.jobId).any fun job => job.status.isTerminal }

/-- `ORDER BY created_at, id`. -/
def OlderFirst (x y : JobId × Job) : Prop :=
  x.2.createdAt < y.2.createdAt ∨ (x.2.createdAt = y.2.createdAt ∧ x.1 ≤ y.1)

instance : DecidableRel OlderFirst := fun _ _ =>
  inferInstanceAs (Decidable (_ ∨ (_ ∧ _)))

/-- `_pending_supported_job`: the oldest pending job of a supported kind, of
those that need the maintenance lock only while it is free. -/
def pendingSupportedJob (supported : JobKind → Bool) (s : World) : Option JobId :=
  ((s.jobs.select (fun _ job => supported job.kind && job.status == .pending &&
    (!job.requiresMaintenanceLock || s.lock.isNone)) OlderFirst).head?).map Prod.fst

/-- The columns that the claim sets. -/
def Job.claim (workerId : WorkerId) (job : Job) : Job :=
  { job with status := .running, step := "EXECUTING", claimedBy := some workerId, progress := 5 }

/-- The columns that a claim without the lock puts back. -/
def Job.unclaim (job : Job) : Job :=
  { job with status := .pending, step := "WAITING", claimedBy := none, progress := 0 }

/-- `claim_next_job`. -/
def claimNextJob (workerId : WorkerId) (supported : JobKind → Bool) (s : World) :
    Option (JobId × Job) × World :=
  let s := releaseTerminalLocks s
  match pendingSupportedJob supported s with
  | none => (none, s)
  | some j =>
      let s := s.modifyJob j (Job.claim workerId)
      match s.jobs.get j with
      | none => (none, s)
      | some job =>
          if !job.requiresMaintenanceLock then
            (some (j, job), s)
          else if s.lock.isNone then
            (some (j, job), { s with lock := some ⟨j, workerId⟩ })
          else
            (none, s.modifyJob j Job.unclaim)

/-- `release_maintenance_lock`. -/
def releaseMaintenanceLock (j : JobId) (s : World) : World :=
  { s with lock := s.lock.filter fun l => l.jobId ≠ j }

/-- The columns that the recovery sets on a running job. -/
def Job.interrupt (job : Job) : Job :=
  { job with
    status := .interrupted
    step := "INTERRUPTED"
    isCancellable := false
    result := some ([("interrupted", .bool true), ("requires_manual_review", .bool true)] ++
      job.data) }

/-- `recover_interrupted_jobs`. -/
def recoverInterruptedJobs (s : World) : World :=
  let interrupted := fun j => (s.jobs.get j).any fun job => job.status == .running
  releaseTerminalLocks { s with
    jobs := s.jobs.mapRows fun _ job => if job.status = .running then job.interrupt else job
    lock := s.lock.filter fun l => !interrupted l.jobId }

/-- `WORKER_LEASE_TIMEOUT_SECONDS`. -/
def workerLeaseTimeoutSeconds : ℕ := 30

/-- `record_worker_start`: the lease row is taken when it is free, the worker's
own, or stale. -/
def recordWorkerStart (workerId : WorkerId) (s : World) : Except Exn (Unit × World) :=
  let taken := { s with heartbeat := some ⟨workerId, s.now, s.now⟩ }
  match s.heartbeat with
  | none => .ok ((), taken)
  | some h =>
      if h.workerId = workerId ∨ h.heartbeatAt + workerLeaseTimeoutSeconds ≤ s.now then
        .ok ((), taken)
      else
        .error .workerAlreadyRunning

/-- `record_worker_heartbeat`. -/
def recordWorkerHeartbeat (workerId : WorkerId) (s : World) : World :=
  match s.heartbeat with
  | some h =>
      if h.workerId = workerId then
        { s with heartbeat := some { h with heartbeatAt := s.now } }
      else s
  | none => s

/-- `release_worker_lease`. -/
def releaseWorkerLease (workerId : WorkerId) (s : World) : World :=
  { s with heartbeat := s.heartbeat.filter fun h => h.workerId ≠ workerId }

section

variable {s : World}

/-- To release locks changes no job. -/
@[simp]
theorem releaseTerminalLocks_jobs : (releaseTerminalLocks s).jobs = s.jobs := rfl

/-- Neither does to release the lock of a job. -/
@[simp]
theorem releaseMaintenanceLock_jobs {j : JobId} : (releaseMaintenanceLock j s).jobs = s.jobs := rfl

/-- The lock of a running job stays. -/
theorem releaseTerminalLocks_lock_of_running {j : JobId} {job : Job} {l : MaintenanceLock}
    (hj : s.jobs.get j = some job) (hr : job.status = .running) (hl : s.lock = some l)
    (hlj : l.jobId = j) : (releaseTerminalLocks s).lock = some l := by
  subst hlj
  simp [releaseTerminalLocks, hl, hj, hr, JobStatus.isActive]

/-- What a pending selection is: a pending job of a supported kind, which finds
the lock free if it needs it. -/
theorem pendingSupportedJob_spec {supported : JobKind → Bool} {j : JobId}
    (h : pendingSupportedJob supported s = some j) :
    ∃ job, s.jobs.get j = some job ∧ supported job.kind ∧ job.status = .pending ∧
      (job.requiresMaintenanceLock → s.lock = none) := by
  obtain ⟨⟨i, job⟩, hhead, rfl⟩ := Option.map_eq_some_iff.mp h
  obtain ⟨hget, hp⟩ := Table.mem_select.mp (List.mem_of_mem_head? hhead)
  simp only [Bool.and_eq_true, Bool.or_eq_true, beq_iff_eq, Bool.not_eq_true'] at hp
  refine ⟨job, hget, hp.1.1, hp.1.2, fun hreq => ?_⟩
  rcases hp.2 with hno | hfree
  · simp [hno] at hreq
  · simpa using hfree

/-- **What a claim can do.**  Either no job is claimed and at most a stale lock
goes, or one pending job of a supported kind becomes running, and if it needs
the lock it finds the lock free and takes it. -/
theorem claimNextJob_cases (workerId : WorkerId) (supported : JobKind → Bool) (s : World) :
    claimNextJob workerId supported s = (none, releaseTerminalLocks s) ∨
    ∃ j job, s.jobs.get j = some job ∧ supported job.kind ∧ job.status = .pending ∧
      (job.requiresMaintenanceLock → (releaseTerminalLocks s).lock = none) ∧
      claimNextJob workerId supported s =
        (some (j, job.claim workerId),
          { (releaseTerminalLocks s).modifyJob j (Job.claim workerId) with
            lock := if job.requiresMaintenanceLock then some ⟨j, workerId⟩
              else (releaseTerminalLocks s).lock }) := by
  cases hp : pendingSupportedJob supported (releaseTerminalLocks s) with
  | none => exact .inl (by simp [claimNextJob, hp])
  | some j =>
    obtain ⟨job, hget, hkind, hstatus, hlock⟩ := pendingSupportedJob_spec hp
    refine .inr ⟨j, job, hget, hkind, hstatus, hlock, ?_⟩
    rw [releaseTerminalLocks_jobs] at hget
    by_cases hreq : job.requiresMaintenanceLock
    · simp [claimNextJob, hp, hget, hreq, hlock hreq, Job.claim]
    · simp [claimNextJob, hp, hget, hreq, Job.claim]
      rfl

/-- What the recovery does to one job. -/
theorem recoverInterruptedJobs_get (j : JobId) :
    (recoverInterruptedJobs s).jobs.get j =
      (s.jobs.get j).map fun job => if job.status = .running then job.interrupt else job := by
  simp [recoverInterruptedJobs]

/-- No job is running after the recovery. -/
theorem recoverInterruptedJobs_not_running {j : JobId} {job : Job}
    (h : (recoverInterruptedJobs s).jobs.get j = some job) : job.status ≠ .running := by
  rw [recoverInterruptedJobs_get] at h
  obtain ⟨job', -, rfl⟩ := Option.map_eq_some_iff.mp h
  split_ifs with hr
  · simp [Job.interrupt]
  · exact hr

end

end PalworldManager
