/-
# What a request does

Every `enqueue_*` function that does not raise inserts one row, pending and
`wellFormed`; every accepted cancellation writes one row that
`Job.acceptsCancel`.  `Requested` says as much of any request of the web process,
and `handle_requested` is all that the other modules use of `handle`.
-/

import PalworldManager.Drive.Jobs
import PalworldManager.Restores.Jobs

namespace PalworldManager

open Effects

/-- What a job must hold for its executor to know what to do. -/
def Job.wellFormed (job : Job) : Prop :=
  match job.kind with
  | .localBackup => ∃ t ∈ ["MANUAL", "AUTOMATIC"], job.data.value "trigger" = .str t
  | .restore _ => job.restoreRequest.isSome
  | .drive _ =>
      isAuditAction ("DRIVE_" ++ ((job.data.lookup "operation").map Value.text).getD "OPERATION")
  | _ => True

/-- The kinds of the jobs that coordinate by the key of the life cycle of the server. -/
def JobKind.sharesLifecycle : JobKind → Bool
  | .lifecycle _ | .shutdown _ | .update => true
  | _ => false

/-- A row as it is inserted. -/
structure Job.Fresh (job : Job) : Prop where
  status : job.status = .pending
  cancelRequested : job.cancelRequested = false
  wellFormed : job.wellFormed
  lifecycleKey : job.coordinationKey = some .palworldLifecycle → job.kind.sharesLifecycle = true

/-- The world with one row more. -/
def World.addJob (s : World) (job : Job) : World := { s with jobs := s.jobs.add job }

/-- The kind of the job that sends a signal. -/
def PalworldSignal.jobKind : PalworldSignal → JobKind
  | .term => .shutdown .forceTerm
  | .kill => .shutdown .forceKill

/-- A job names a record and the file that the record has. -/
def Names (s : World) (job : Job) (recordId : ℕ) : Prop :=
  ∃ record, s.backups.get recordId = some record ∧
    job.data.value "backup_record_id" = .int recordId ∧
    job.data.value "filename" = .str record.filename

/-- The row that a request inserts, and what it was checked against. -/
def WebRequest.Inserts (s : World) (job : Job) : WebRequest → Prop
  | .lifecycle action _ => job.kind = .lifecycle action ∧
      job.coordinationKey = some .palworldLifecycle ∧
      (s.jobs.rows.any fun r => r.2.kind.likePalworld && r.2.status.isActive) = false
  | .assistedShutdown _ _ => job.kind = .shutdown .assisted ∧
      job.coordinationKey = some .palworldLifecycle ∧ activeWithKey s .palworldLifecycle = false
  | .forcedShutdown source signal _ => job.kind = signal.jobKind ∧
      job.coordinationKey = some .palworldLifecycle ∧
      activeWithKey s .palworldLifecycle = false ∧
      job.data.value "source_job_id" = .int source ∧
      ∃ failed, s.jobs.get source = some failed ∧ validForcedSource signal failed = true
  | .localBackup _ => job.kind = .localBackup
  | .restore location _ _ => job.kind = .restore location
  | .driveCheck => job.kind = .drive .check
  | .driveUpload recordId _ => job.kind = .drive .upload ∧ Names s job recordId
  | .driveDownload recordId => job.kind = .drive .download ∧ Names s job recordId
  | .driveDelete recordId => job.kind = .drive .delete ∧ Names s job recordId
  | .updateCheck => job.kind = .updateCheck ∧ job.coordinationKey = some .updateCheck ∧
      activeWithKey s .updateCheck = false ∧ activeWithKey s .palworldLifecycle = false
  | .update _ => job.kind = .update ∧ job.coordinationKey = some .palworldLifecycle ∧
      activeWithKey s .updateCheck = false ∧ activeWithKey s .palworldLifecycle = false
  | .hostPower action _ => job.kind = .hostPower action
  | _ => False

/-- A request inserted its row, and nothing else was done. -/
def Enqueued (r : WebRequest) (s : World) (i : JobId) (s' : World) : Prop :=
  i = s.jobs.nextId ∧ ∃ job, job.Fresh ∧ r.Inserts s job ∧ s' = s.addJob job

section Enqueue

variable {s s' : World} {i : JobId} {r : WebRequest}

/-- **What is inserted is enqueued**, as the request says. -/
theorem insertJob_enqueued {message : String} {job : Job}
    (h : insertJob message job s = .ok (i, s')) (hjob : job.Fresh) (hr : r.Inserts s job) :
    Enqueued r s i s' := by
  rw [insertJob] at h
  split_ifs at h
  obtain ⟨rfl, rfl⟩ : s.jobs.nextId = i ∧ s.addJob job = s' := by
    simpa [World.addJob] using h
  exact ⟨rfl, job, hjob, hr, rfl⟩

/-- What is let through has no active job of its key. -/
theorem ensureNoActive_eq_ok {key : CoordinationKey} {message : String} {u : Unit}
    (h : ensureNoActive s key message = .ok u) : activeWithKey s key = false := by
  rw [ensureNoActive] at h
  split_ifs at h with hactive
  exact Bool.eq_false_iff.mpr hactive

/-- A pending row is fresh if its executor knows what to do with its result. -/
theorem fresh_pendingJob {kind : JobKind} {cancellable lock : Bool} {key : CoordinationKey}
    {user : Option ℕ} {result : Dict}
    (h : (pendingJob s kind cancellable lock key user result).wellFormed)
    (hkey : key = .palworldLifecycle → kind.sharesLifecycle = true) :
    (pendingJob s kind cancellable lock key user result).Fresh :=
  ⟨rfl, rfl, h, fun heq => hkey (Option.some.inj heq)⟩

/-- A lifecycle request is met. -/
theorem enqueueLifecycleJob_enqueued {action : LifecycleAction} {user : ℕ}
    (h : enqueueLifecycleJob action user s = .ok (i, s')) :
    Enqueued (.lifecycle action user) s i s' := by
  rw [enqueueLifecycleJob] at h
  split_ifs at h with hactive
  obtain ⟨timeout, -, h⟩ := except_bind_eq_ok.mp h
  exact insertJob_enqueued h (fresh_pendingJob trivial fun _ => rfl)
    ⟨rfl, rfl, Bool.eq_false_iff.mpr hactive⟩

/-- The request of an assisted shutdown is met. -/
theorem enqueueAssistedShutdown_enqueued {minutes : ℤ} {user : ℕ}
    (h : enqueueAssistedShutdown minutes user s = .ok (i, s')) :
    Enqueued (.assistedShutdown minutes user) s i s' := by
  rw [enqueueAssistedShutdown] at h
  split_ifs at h
  obtain ⟨_, hfree, h⟩ := except_bind_eq_ok.mp h
  obtain ⟨timeout, -, h⟩ := except_bind_eq_ok.mp h
  exact insertJob_enqueued h (fresh_pendingJob trivial fun _ => rfl)
    ⟨rfl, rfl, ensureNoActive_eq_ok hfree⟩

/-- The request to force a shutdown is met. -/
theorem enqueueForcedShutdown_enqueued {source : JobId} {signal : PalworldSignal} {user : ℕ}
    (h : enqueueForcedShutdown source signal user s = .ok (i, s')) :
    Enqueued (.forcedShutdown source signal user) s i s' := by
  unfold enqueueForcedShutdown at h
  split_ifs at h with hsource
  obtain ⟨_, hfree, h⟩ := except_bind_eq_ok.mp h
  obtain ⟨timeout, -, h⟩ := except_bind_eq_ok.mp h
  have hvalid : (s.jobs.get source).any (validForcedSource signal) = true := by
    simpa using hsource
  obtain ⟨failed, hget, hvalid⟩ := (Option.any_eq_true ..).mp hvalid
  refine insertJob_enqueued h (fresh_pendingJob ?_ fun _ => rfl)
    ⟨?_, rfl, ensureNoActive_eq_ok hfree, rfl, failed, hget, hvalid⟩
  · cases signal <;> trivial
  · cases signal <;> rfl

/-- The request of a local backup is met. -/
theorem enqueueLocalBackup_enqueued {trigger : String}
    (h : enqueueLocalBackup trigger s = .ok (i, s')) : Enqueued (.localBackup trigger) s i s' := by
  rw [enqueueLocalBackup] at h
  split_ifs at h with htrigger
  exact insertJob_enqueued h (fresh_pendingJob ⟨trigger, htrigger, rfl⟩ nofun) rfl

/-- The request of a restore is met. -/
theorem enqueueRestore_enqueued {location : Location} {recordId : ℕ} {confirmation : String}
    (h : enqueueRestore location recordId confirmation s = .ok (i, s')) :
    Enqueued (.restore location recordId confirmation) s i s' := by
  rw [enqueueRestore] at h
  split_ifs at h
  split at h
  · split_ifs at h
    obtain ⟨-, -, h⟩ := except_bind_eq_ok.mp h
    obtain ⟨stop, -, h⟩ := except_bind_eq_ok.mp h
    obtain ⟨start, -, h⟩ := except_bind_eq_ok.mp h
    refine insertJob_enqueued h (fresh_pendingJob ?_ nofun) rfl
    simp [Job.wellFormed, Job.restoreRequest, pendingJob, Job.data, Dict.value, List.lookup,
      Value.asInt, Value.asStr]
  · cases h

/-- A request of a Drive operation is met. -/
theorem enqueueDrive_enqueued {operation : DriveOperation} {key : CoordinationKey} {name : String}
    {rest : Dict} {cancellable : Bool} (hname : isAuditAction ("DRIVE_" ++ name))
    (h : enqueueDrive operation key ([("operation", .str name)] ++ rest) cancellable s =
      .ok (i, s'))
    (hr : r.Inserts s (pendingJob s (.drive operation) cancellable (operation != .check) key none
      ([("operation", .str name)] ++ rest)))
    (hkey : key ≠ .palworldLifecycle) : Enqueued r s i s' :=
  insertJob_enqueued h (fresh_pendingJob hname fun heq => absurd heq hkey) hr

/-- The request to check the Drive is met. -/
theorem enqueueDriveCheck_enqueued (h : enqueueDriveCheck s = .ok (i, s')) :
    Enqueued .driveCheck s i s' :=
  enqueueDrive_enqueued (by decide) h rfl nofun

/-- The request of an upload is met. -/
theorem enqueueDriveUpload_enqueued {recordId : ℕ} {trigger : String}
    (h : enqueueDriveUpload recordId trigger s = .ok (i, s')) :
    Enqueued (.driveUpload recordId trigger) s i s' := by
  rw [enqueueDriveUpload] at h
  split_ifs at h
  split at h
  · rename_i record hrecord
    split_ifs at h
    exact enqueueDrive_enqueued (by decide) h ⟨rfl, record, hrecord, rfl, rfl⟩ nofun
  · cases h

/-- The request of a download is met. -/
theorem enqueueDriveDownload_enqueued {recordId : ℕ}
    (h : enqueueDriveDownload recordId s = .ok (i, s')) :
    Enqueued (.driveDownload recordId) s i s' := by
  rw [enqueueDriveDownload] at h
  split at h
  · rename_i record hrecord
    split_ifs at h
    exact enqueueDrive_enqueued (by decide) h ⟨rfl, record, hrecord, rfl, rfl⟩ nofun
  · cases h

/-- The request to delete a remote backup is met. -/
theorem enqueueDriveDelete_enqueued {recordId : ℕ}
    (h : enqueueDriveDelete recordId s = .ok (i, s')) :
    Enqueued (.driveDelete recordId) s i s' := by
  rw [enqueueDriveDelete] at h
  split at h
  · rename_i record hrecord
    split_ifs at h
    exact enqueueDrive_enqueued (by decide) h ⟨rfl, record, hrecord, rfl, rfl⟩ nofun
  · cases h

/-- The request to check for updates is met. -/
theorem enqueueUpdateCheck_enqueued (h : enqueueUpdateCheck s = .ok (i, s')) :
    Enqueued .updateCheck s i s' := by
  rw [enqueueUpdateCheck] at h
  obtain ⟨_, hcheck, h⟩ := except_bind_eq_ok.mp h
  obtain ⟨_, hfree, h⟩ := except_bind_eq_ok.mp h
  exact insertJob_enqueued h (fresh_pendingJob trivial nofun)
    ⟨rfl, rfl, ensureNoActive_eq_ok hcheck, ensureNoActive_eq_ok hfree⟩

/-- The request of an update is met. -/
theorem enqueueUpdate_enqueued {confirmation : String}
    (h : enqueueUpdate confirmation s = .ok (i, s')) : Enqueued (.update confirmation) s i s' := by
  rw [enqueueUpdate] at h
  split_ifs at h
  obtain ⟨_, hcheck, h⟩ := except_bind_eq_ok.mp h
  obtain ⟨_, hfree, h⟩ := except_bind_eq_ok.mp h
  split at h
  · cases h
  · split_ifs at h
    obtain ⟨installed, -, h⟩ := except_bind_eq_ok.mp h
    obtain ⟨available, -, h⟩ := except_bind_eq_ok.mp h
    obtain ⟨minutes, -, h⟩ := except_bind_eq_ok.mp h
    obtain ⟨stop, -, h⟩ := except_bind_eq_ok.mp h
    obtain ⟨start, -, h⟩ := except_bind_eq_ok.mp h
    obtain ⟨settings, -, h⟩ := except_bind_eq_ok.mp h
    exact insertJob_enqueued h (fresh_pendingJob trivial fun _ => rfl)
      ⟨rfl, rfl, ensureNoActive_eq_ok hcheck, ensureNoActive_eq_ok hfree⟩

/-- The request to reboot or to power off is met. -/
theorem enqueueHostPowerJob_enqueued {action : HostPowerAction} {confirmation : String}
    (h : enqueueHostPowerJob action confirmation s = .ok (i, s')) :
    Enqueued (.hostPower action confirmation) s i s' := by
  rw [enqueueHostPowerJob] at h
  split_ifs at h
  obtain ⟨-, -, h⟩ := except_bind_eq_ok.mp h
  obtain ⟨timeout, -, h⟩ := except_bind_eq_ok.mp h
  exact insertJob_enqueued h (fresh_pendingJob trivial nofun) rfl

end Enqueue

/-- What a request may do to a row there is. -/
inductive RowRequested (job : Job) : Job → Prop
  | same : RowRequested job job
  | stopNow : RowRequested job { job with executeNowRequested := true }
  | cancel : job.acceptsCancel = true → RowRequested job { job with cancelRequested := true }
  | cancelPending (result : Dict) : job.acceptsCancel = true → job.status = .pending →
      (∀ key, key ≠ "cancelled" → result.value key = job.data.value key) →
      RowRequested job (Job.cancel result { job with cancelRequested := true })

/-- What a request may do. -/
structure Requested (s s' : World) : Prop where
  lock : s'.lock = s.lock
  heartbeat : s'.heartbeat = s.heartbeat
  backups : s'.backups = s.backups
  localFiles : s'.localFiles = s.localFiles
  remoteFiles : s'.remoteFiles = s.remoteFiles
  rows : ∀ i job, s.jobs.get i = some job → ∃ job', s'.jobs.get i = some job' ∧ RowRequested job job'
  fresh : ∀ i job, s.jobs.get i = none → s'.jobs.get i = some job → job.Fresh

section Handle

variable {s s' : World} {j : JobId}

/-- A request may do nothing. -/
theorem Requested.refl (s : World) : Requested s s where
  lock := rfl
  heartbeat := rfl
  backups := rfl
  localFiles := rfl
  remoteFiles := rfl
  rows _ job h := ⟨job, h, .same⟩
  fresh _ _ h h' := by simp [h] at h'

/-- A job that is enqueued leaves the others. -/
theorem Enqueued.requested {r : WebRequest} {i : JobId} (h : Enqueued r s i s') :
    Requested s s' := by
  obtain ⟨-, job, hjob, -, rfl⟩ := h
  refine ⟨rfl, rfl, rfl, rfl, rfl, fun k job' hk => ⟨job', Table.get_add_of_some hk, .same⟩, ?_⟩
  intro k job' hnone hk
  rw [World.addJob, Table.get_add] at hk
  split_ifs at hk
  · obtain rfl : job = job' := by simpa using hk
    exact hjob
  · simp [hnone] at hk

/-- So does a request, met or refused. -/
theorem enqueueing_requested {r : WebRequest} {x : Except Exn (JobId × World)}
    (h : ∀ i s', x = .ok (i, s') → Enqueued r s i s') : Requested s (enqueueing s x).2 := by
  cases x with
  | error e => exact .refl s
  | ok p => exact (h p.1 p.2 rfl).requested

/-- A write to one row that is a request's. -/
theorem requested_modifyJob {write : Job → Job}
    (h : ∀ job, s.jobs.get j = some job → RowRequested job (write job)) :
    Requested s (s.modifyJob j write) := by
  refine ⟨rfl, rfl, rfl, rfl, rfl, fun i job hi => ?_, fun i job hnone hi => ?_⟩
  · by_cases hij : i = j
    · subst hij
      exact ⟨write job, by simp [hi], h job hi⟩
    · exact ⟨job, by rw [World.modifyJob_get_ne s hij, hi], .same⟩
  · by_cases hij : i = j
    · subst hij
      simp [hnone] at hi
    · simp [hij, hnone] at hi

/-- What `onPending` of a cancellation may be. -/
def CancelsPending (onPending : Job → Job) : Prop :=
  onPending = id ∨ ∃ result : Job → Dict,
    (∀ job key, key ≠ "cancelled" → (result job).value key = job.data.value key) ∧
      onPending = fun job => job.cancel (result job)

/-- A request to cancel changes its job at most. -/
theorem requestCancel_requested {accepts : Job → Bool} {onPending : Job → Job}
    (h : CancelsPending onPending) : Requested s (requestCancel accepts onPending j s).2 := by
  rw [requestCancel]
  split
  · rename_i job hj
    split_ifs with haccepts
    · simp only [Bool.and_eq_true] at haccepts
      refine requested_modifyJob fun job' hj' => ?_
      obtain rfl : job = job' := by simpa [hj] using hj'
      simp only
      split_ifs with hpending
      · rcases h with rfl | ⟨result, hkeeps, rfl⟩
        · exact .cancel haccepts.2
        · exact .cancelPending _ haccepts.2 hpending fun key => hkeeps _ key
      · exact .cancel haccepts.2
    · exact .refl s
  · exact .refl s

/-- **An accepted cancellation** found a row that accepts it, and is recorded. -/
theorem requestCancel_accepted {accepts : Job → Bool} {onPending : Job → Job}
    (h : CancelsPending onPending) (haccepted : requestCancel accepts onPending j s = (true, s')) :
    (∃ job, s.jobs.get j = some job ∧ accepts job = true ∧ job.acceptsCancel = true) ∧
      ∃ job, s'.jobs.get j = some job ∧ job.cancelRequested = true := by
  rw [requestCancel] at haccepted
  split at haccepted
  · rename_i job hj
    split_ifs at haccepted with hok
    · obtain rfl : _ = s' := by simpa using haccepted
      simp only [Bool.and_eq_true] at hok
      refine ⟨⟨job, hj, hok.1, hok.2⟩, _, by rw [World.modifyJob_get_self, hj]; rfl, ?_⟩
      simp only
      split_ifs
      · rcases h with rfl | ⟨result, -, rfl⟩ <;> rfl
      · rfl
    · simp at haccepted
  · simp at haccepted

/-- So does a request to shut down now. -/
theorem requestShutdownNow_requested {owner : Option ℕ} :
    Requested s (requestShutdownNow j owner s).2 := by
  rw [requestShutdownNow]
  split
  · split_ifs
    · exact requested_modifyJob fun _ _ => .stopNow
    · exact .refl s
  · exact .refl s

/-- **What a request of the web process may do.** -/
theorem handle_requested (s : World) (request : WebRequest) : Requested s (handle s request).2 := by
  cases request with
  | lifecycle => exact enqueueing_requested fun _ _ => enqueueLifecycleJob_enqueued
  | assistedShutdown => exact enqueueing_requested fun _ _ => enqueueAssistedShutdown_enqueued
  | forcedShutdown => exact enqueueing_requested fun _ _ => enqueueForcedShutdown_enqueued
  | localBackup => exact enqueueing_requested fun _ _ => enqueueLocalBackup_enqueued
  | restore => exact enqueueing_requested fun _ _ => enqueueRestore_enqueued
  | driveCheck => exact enqueueing_requested fun _ _ => enqueueDriveCheck_enqueued
  | driveUpload => exact enqueueing_requested fun _ _ => enqueueDriveUpload_enqueued
  | driveDownload => exact enqueueing_requested fun _ _ => enqueueDriveDownload_enqueued
  | driveDelete => exact enqueueing_requested fun _ _ => enqueueDriveDelete_enqueued
  | updateCheck => exact enqueueing_requested fun _ _ => enqueueUpdateCheck_enqueued
  | update => exact enqueueing_requested fun _ _ => enqueueUpdate_enqueued
  | hostPower => exact enqueueing_requested fun _ _ => enqueueHostPowerJob_enqueued
  | backupCancel => exact requestCancel_requested (.inl rfl)
  | driveCancel => exact requestCancel_requested (.inl rfl)
  | shutdownCancel =>
    refine requestCancel_requested (.inr ⟨_, fun job key hkey => ?_, rfl⟩)
    exact Dict.value_append (by simpa using hkey)
  | updateCancel => exact requestCancel_requested (.inr ⟨_, fun _ _ _ => rfl, rfl⟩)
  | shutdownNow => exact requestShutdownNow_requested
  | settings values =>
    rw [handle]
    split_ifs
    · exact ⟨rfl, rfl, rfl, rfl, rfl, fun _ job h => ⟨job, h, .same⟩, fun _ _ h h' => by simp [h] at h'⟩
    · exact .refl s

/-- **A job that is new was inserted by the request**, which returned its identifier. -/
theorem enqueueing_inserts {r : WebRequest} {x : Except Exn (JobId × World)} {job : Job}
    (h : ∀ i s', x = .ok (i, s') → Enqueued r s i s') (hnone : s.jobs.get j = none)
    (hj : (enqueueing s x).2.jobs.get j = some job) :
    (enqueueing s x).1 = .enqueued j ∧ r.Inserts s job := by
  cases x with
  | error e => simp [enqueueing, hnone] at hj
  | ok p =>
    obtain ⟨i, s'⟩ := p
    obtain ⟨rfl, new, -, hr, rfl⟩ := h i s' rfl
    simp only [enqueueing, World.addJob, Table.get_add, hnone] at hj
    split_ifs at hj with hi
    obtain rfl : new = job := by simpa using hj
    exact ⟨by rw [hi]; rfl, hr⟩

/-- A request to cancel makes no job. -/
theorem requestCancel_get_none {accepts : Job → Bool} {onPending : Job → Job} {i : JobId}
    (hnone : s.jobs.get i = none) : (requestCancel accepts onPending j s).2.jobs.get i = none := by
  have hmodified (write : Job → Job) : (s.modifyJob j write).jobs.get i = none := by
    by_cases hij : i = j
    · subst hij
      simp [hnone]
    · rw [World.modifyJob_get_ne s hij, hnone]
  rw [requestCancel]
  split
  · split_ifs
    · exact hmodified _
    · exact hnone
  · exact hnone

/-- **What row a request inserts**, and what it answers then. -/
theorem handle_inserts {request : WebRequest} {job : Job} (hnone : s.jobs.get j = none)
    (hj : (handle s request).2.jobs.get j = some job) :
    (handle s request).1 = .enqueued j ∧ request.Inserts s job := by
  have hcancel {accepts : Job → Bool} {onPending : Job → Job} {i : JobId}
      (hj : (requestCancel accepts onPending i s).2.jobs.get j = some job) {p : Prop} : p := by
    simp [requestCancel_get_none hnone] at hj
  cases request with
  | lifecycle => exact enqueueing_inserts (fun _ _ => enqueueLifecycleJob_enqueued) hnone hj
  | assistedShutdown =>
    exact enqueueing_inserts (fun _ _ => enqueueAssistedShutdown_enqueued) hnone hj
  | forcedShutdown => exact enqueueing_inserts (fun _ _ => enqueueForcedShutdown_enqueued) hnone hj
  | localBackup => exact enqueueing_inserts (fun _ _ => enqueueLocalBackup_enqueued) hnone hj
  | restore => exact enqueueing_inserts (fun _ _ => enqueueRestore_enqueued) hnone hj
  | driveCheck => exact enqueueing_inserts (fun _ _ => enqueueDriveCheck_enqueued) hnone hj
  | driveUpload => exact enqueueing_inserts (fun _ _ => enqueueDriveUpload_enqueued) hnone hj
  | driveDownload => exact enqueueing_inserts (fun _ _ => enqueueDriveDownload_enqueued) hnone hj
  | driveDelete => exact enqueueing_inserts (fun _ _ => enqueueDriveDelete_enqueued) hnone hj
  | updateCheck => exact enqueueing_inserts (fun _ _ => enqueueUpdateCheck_enqueued) hnone hj
  | update => exact enqueueing_inserts (fun _ _ => enqueueUpdate_enqueued) hnone hj
  | hostPower => exact enqueueing_inserts (fun _ _ => enqueueHostPowerJob_enqueued) hnone hj
  | backupCancel => exact hcancel hj
  | driveCancel => exact hcancel hj
  | shutdownCancel => exact hcancel hj
  | updateCancel => exact hcancel hj
  | shutdownNow i owner =>
    simp only [handle, answering, requestShutdownNow] at hj
    split at hj
    · split_ifs at hj
      · by_cases hij : j = i
        · subst hij
          simp [hnone] at hj
        · simp [hij, hnone] at hj
      · simp [hnone] at hj
    · simp [hnone] at hj
  | settings values =>
    rw [handle] at hj
    split_ifs at hj <;> simp [hnone] at hj

end Handle

end PalworldManager
