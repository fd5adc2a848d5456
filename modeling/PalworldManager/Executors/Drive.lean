/-
# The Drive jobs are busy with their own job

A transfer makes routine calls, but for the move of an upload to its final name
and the removal of a download that cannot be kept.
-/

import PalworldManager.Executors.Backup

namespace PalworldManager

open Effects
open Effects.Exec hiding bind ask

variable {L α β : Type} {A : StepClass → Prop} {j : JobId} {V : L → L → Prop} [IsPreorder L V]

section Storage

/-- The look at a remote file is routine. -/
theorem keeps_remoteStat (hr : A .routine) (name : String) :
    Keeps (Acts A j) V (remoteStat j name : Py L _) := by
  refine keeps_call hr rfl fun r => ?_
  rcases r with f | (f | _ | _)
  · exact keeps_ite (fun _ => keeps_pure _) fun _ => keeps_raise _
  · exact keeps_pure _
  · exact keeps_raise _
  · exact keeps_raise _

/-- To delete a remote file only shrinks the remote. -/
theorem shrinks_deleteRemote (s : World) (name : String) :
    Shrinks s { s with remoteFiles := Function.update s.remoteFiles name none } where
  records _ _ := id
  localFiles _ _ := id
  remoteFiles n i h := by
    by_cases hn : n = name <;> simp_all [Function.update]

/-- So is a remote delete. -/
theorem keeps_deleteExact (hr : A .routine) (name : String) (ignoreMissing : Bool) :
    Keeps (Acts A j) V (deleteExact j name ignoreMissing : Py L Unit) := by
  refine keeps_call hr rfl fun change => ?_
  refine keeps_bind (keeps_tx _ _ fun s => ⟨?_, hr⟩) fun _ => ?_
  · cases change.happened
    · exact effect_shrinks rfl nofun (.refl s) (.refl s) rfl fun _ => rfl
    · exact effect_shrinks rfl nofun ⟨rfl, rfl, rfl⟩ (shrinks_deleteRemote s name) rfl fun _ => rfl
  · cases change with
    | done => exact keeps_pure _
    | failed f happened => exact keeps_raiseIf _ _

/-- So is the loop that waits for a copy. -/
theorem keeps_pollCopy (hr : A .routine) {cancelRequested : Py L Bool}
    (hcancel : cancelRequested.Keeps (Acts A j) V) (n : ℕ) :
    Keeps (Acts A j) V (pollCopy j cancelRequested n) := by
  induction n with
  | zero =>
    refine keeps_bind hcancel fun cancel => keeps_bind (keeps_raiseIf _ _) fun _ => ?_
    exact keeps_storage _ hr
  | succ n ih => exact keeps_bind hcancel fun cancel => keeps_bind (keeps_raiseIf _ _) fun _ => ih

/-- So is a copy. -/
theorem keeps_copyRemote (hr : A .routine) {cancelRequested : Py L Bool}
    (hcancel : cancelRequested.Keeps (Acts A j) V) : Keeps (Acts A j) V (copyRemote j cancelRequested) :=
  keeps_call hr rfl fun polls => keeps_pollCopy hr hcancel polls

/-- So is the delete of the storage. -/
theorem keeps_storageDelete (hr : A .routine) (filename : String) :
    Keeps (Acts A j) V (storageDelete j filename : Py L Unit) :=
  keeps_bind (keeps_raiseIf _ _) fun _ => keeps_deleteExact hr _ _

/-- So is its download. -/
theorem keeps_storageDownload (hr : A .routine) (filename expected : String)
    {cancelRequested : Py L Bool} (hcancel : cancelRequested.Keeps (Acts A j) V) :
    Keeps (Acts A j) V (storageDownload j filename expected cancelRequested) := by
  refine keeps_bind (keeps_raiseIf _ _) fun _ => ?_
  refine keeps_reply hr rfl (fun _ => keeps_ofReply _) fun present => ?_
  refine keeps_bind (keeps_raiseIf _ _) fun _ => keeps_bind (keeps_copyRemote hr hcancel) fun _ => ?_
  refine keeps_reply hr rfl (fun _ => keeps_ofReply _) fun regular => ?_
  refine keeps_bind (keeps_raiseIf _ _) fun _ => ?_
  refine keeps_reply hr rfl (fun _ => keeps_ofReply _) fun digest => ?_
  exact keeps_bind (keeps_ofExcept _) fun _ => keeps_raiseIf _ _

/-- A file appears under its final name on the remote. -/
theorem effect_publishedRemote (s : World) (name : String) :
    Effect j (.published j .drive name) s
      { s with remoteFiles := Function.update s.remoteFiles name (some j) } := by
  refine effect_stored rfl rfl (by simp [Label.cls]) ⟨rfl, rfl, rfl⟩
    ⟨fun _ _ => .inl, fun _ _ => .inl, ?_⟩ rfl fun _ => rfl
  intro n i h
  by_cases hn : n = name <;> simp_all [Function.update]

/-- The move is the one step of an upload that is no routine. -/
theorem keeps_moveRemote (hr : A .routine) (hp : A .publish) (hcall : A .call)
    (source target : String) :
    Keeps (Acts A j) V (moveRemote j source target : Py L Unit) := by
  refine keeps_bind (keeps_ask _ hcall) fun change => ?_
  refine keeps_bind (keeps_tx _ _ fun s => ?_) fun _ => ?_
  · cases RemoteChange.happened change
    · exact ⟨effect_read j s, hr⟩
    · exact ⟨effect_publishedRemote s target, hp⟩
  · cases (change : RemoteChange) with
    | done => exact keeps_pure _
    | failed f happened => exact keeps_raise _

/-- A remote file is published by the call that moves it. -/
theorem keeps_publishRemote (hr : A .routine) (hp : A .publish) (hcall : A .call)
    (temporary filename digest : String) {cancelRequested : Py L Bool}
    (hcancel : cancelRequested.Keeps (Acts A j) V) :
    Keeps (Acts A j) V (publishRemote j temporary filename digest cancelRequested) := by
  refine keeps_bind (keeps_copyRemote hr hcancel) fun _ => ?_
  refine keeps_bind (keeps_remoteStat hr _) fun copied => ?_
  refine keeps_reply hr rfl (fun _ => keeps_ofReply _) fun size => ?_
  refine keeps_bind (keeps_raiseIf _ _) fun _ => keeps_bind hcancel fun cancel => ?_
  refine keeps_bind (keeps_raiseIf _ _) fun _ => keeps_bind (keeps_moveRemote hr hp hcall _ _) fun _ => ?_
  refine keeps_bind (keeps_remoteStat hr _) fun final => ?_
  refine keeps_reply hr rfl (fun _ => keeps_ofReply _) fun size => ?_
  cases final with
  | none => exact keeps_raise _
  | some f => exact keeps_bind (keeps_raiseIf _ _) fun _ => keeps_pure _

/-- An upload of the storage publishes a remote file. -/
theorem keeps_storageUpload (hr : A .routine) (hp : A .publish) (hcall : A .call)
    (filename expected : String) {cancelRequested : Py L Bool}
    (hcancel : cancelRequested.Keeps (Acts A j) V) :
    Keeps (Acts A j) V (storageUpload j filename expected cancelRequested) := by
  refine keeps_bind (keeps_raiseIf _ _) fun _ => keeps_bind (keeps_ofExcept _) fun digest => ?_
  refine keeps_reply hr rfl (fun _ => keeps_ofReply _) fun regular => ?_
  refine keeps_reply hr rfl (fun _ => keeps_ofReply _) fun sourceDigest => ?_
  refine keeps_bind (keeps_raiseIf _ _) fun _ => keeps_bind (keeps_storage _ hr) fun _ => ?_
  refine keeps_bind (keeps_remoteStat hr _) fun existing => ?_
  refine keeps_bind (keeps_raiseIf _ _) fun _ => keeps_call hr rfl fun identity => ?_
  refine keeps_tryCatch (keeps_publishRemote hr hp hcall _ _ _ hcancel) fun e => ?_
  exact keeps_bind (keeps_deleteExact hr _ _) fun _ => keeps_raise _

end Storage

section Transfers

/-- So does an upload of a record. -/
theorem keeps_transferUpload (hr : A .routine) (hp : A .publish) (hcall : A .call)
    (record : BackupRecord) {cancelRequested : Py L Bool}
    (hcancel : cancelRequested.Keeps (Acts A j) V) :
    Keeps (Acts A j) V (transferUpload j record cancelRequested) := by
  have hresolve : Keeps (Acts A j) V
      (resolveManagedArtifact j .transfer record.storagePath : Py L Bool) :=
    keeps_resolveManagedArtifact (keeps_ask _ hr)
  refine keeps_bind hresolve fun managed => ?_
  split
  · refine keeps_bind (keeps_raiseIf _ _) fun _ => ?_
    refine keeps_reply hr rfl (fun _ => keeps_ofReply _) fun regular => ?_
    refine keeps_bind (keeps_raiseIf _ _) fun _ => ?_
    refine keeps_reply hr rfl (fun _ => keeps_ofReply _) fun size => ?_
    refine keeps_reply hr rfl (fun _ => keeps_ofReply _) fun digest => ?_
    refine keeps_bind (keeps_raiseIf _ _) fun _ => ?_
    refine keeps_reply hr rfl (fun _ => keeps_ofReply _) fun _ => ?_
    exact keeps_storageUpload hr hp hcall _ _ hcancel
  · exact keeps_raise _

/-- A record is validated without a step. -/
theorem keeps_validateRemoteRecord (record : BackupRecord) :
    Keeps (Acts A j) V (validateRemoteRecord record : Py L _) := by
  rw [validateRemoteRecord]
  cases record.remoteContent with
  | none => exact keeps_raise _
  | some content => exact keeps_pure _

/-- A download to the temporary directory is routine. -/
theorem keeps_downloadTemporary (hr : A .routine) (record : BackupRecord)
    {cancelRequested : Py L Bool} (hcancel : cancelRequested.Keeps (Acts A j) V) :
    Keeps (Acts A j) V (downloadTemporary j record cancelRequested) := by
  refine keeps_bind (keeps_validateRemoteRecord _) fun content => ?_
  refine keeps_bind (keeps_storage _ hr) fun _ => ?_
  refine keeps_bind (keeps_validateControlledDirectory hr _) fun _ => ?_
  refine keeps_bind (keeps_storage _ hr) fun _ => ?_
  refine keeps_bind (keeps_storageDownload hr _ _ hcancel) fun _ => ?_
  refine keeps_reply hr rfl (fun _ => keeps_ofReply _) fun regular => ?_
  refine keeps_reply hr rfl (fun _ => keeps_ofReply _) fun size => ?_
  refine keeps_reply hr rfl (fun _ => keeps_ofReply _) fun digest => ?_
  refine keeps_bind (keeps_raiseIf _ _) fun _ => ?_
  refine keeps_reply hr rfl (fun _ => keeps_ofReply _) fun backupId => ?_
  cases backupId with
  | none => exact keeps_raise _
  | some backupId => exact keeps_pure _

/-- What was downloaded is published. -/
theorem keeps_publishDownload (hr : A .routine) (hp : A .publish) (record : BackupRecord)
    (sha256 : String) (sizeBytes : ℕ)
    (backupId : String) {cancelRequested : Py Bool Bool}
    (hcancel : cancelRequested.Keeps (Acts A j) anyLocals) :
    Keeps (Acts A j) anyLocals
      (publishDownload j record sha256 sizeBytes backupId cancelRequested) := by
  refine keeps_bind (keeps_destinationExists hr _) fun present => ?_
  refine keeps_bind (keeps_raiseIf _ _) fun _ => ?_
  refine keeps_bind hcancel fun cancel => ?_
  refine keeps_bind (keeps_raiseIf _ _) fun _ => keeps_bind (keeps_storage _ hr) fun _ => ?_
  refine keeps_bind (keeps_publishLocal hp _) fun _ => ?_
  refine keeps_bind (keeps_storage _ hp) fun _ => ?_
  refine keeps_bind (keeps_assign _ fun _ => trivial) fun _ => ?_
  refine keeps_reply hr rfl (fun _ => keeps_ofReply _) fun _ => ?_
  refine keeps_reply hr rfl (fun _ => keeps_ofReply _) fun digest => ?_
  exact keeps_bind (keeps_raiseIf _ _) fun _ => keeps_pure _

/-- A download of a record publishes a local file. -/
theorem keeps_transferDownload (hr : A .routine) (hp : A .publish) (record : BackupRecord)
    {cancelRequested : Py Bool Bool}
    (hcancel : cancelRequested.Keeps (Acts A j) anyLocals) :
    Keeps (Acts A j) V (transferDownload j record cancelRequested : Py L BackupArtifact) := by
  refine keeps_scope (keeps_bind (keeps_validateRemoteRecord _) fun content => ?_)
  refine keeps_bind (keeps_storage _ hr) fun _ => ?_
  refine keeps_bind (keeps_validateControlledDirectory hr _) fun _ => ?_
  refine keeps_bind (keeps_destinationExists hr _) fun present => ?_
  refine keeps_bind (keeps_raiseIf _ _) fun _ => ?_
  refine keeps_bind (keeps_downloadTemporary hr _ hcancel) fun backupId => ?_
  refine keeps_tryCatch (keeps_publishDownload hr hp _ _ _ _ hcancel) fun e => ?_
  refine keeps_bind keeps_locals fun published => ?_
  refine keeps_ite (fun _ => ?_) fun _ => keeps_raise _
  exact keeps_bind (keeps_removeManagedArtifact .publication hp _ hp) fun _ => keeps_raise _

/-- The delete of a record's file is routine. -/
theorem keeps_transferDelete (hr : A .routine) (record : BackupRecord) :
    Keeps (Acts A j) V (transferDelete j record : Py L Unit) :=
  keeps_bind (keeps_validateRemoteRecord _) fun _ => keeps_storageDelete hr _

end Transfers

section Capacity

/-- The look for a cancellation is routine. -/
theorem keeps_cancelRequested (hr : A .routine) :
    Keeps (Acts A j) V (cancelRequested j : Py L Bool) :=
  keeps_query hr _

/-- Records are deleted by the retention. -/
theorem keeps_deleteRecords (hr : A .routine) (ht : A .retention) (ids : List ℕ) :
    Keeps (Acts A j) V (session (fun s => .ok ((), s.deleteRecords ids)) (fun _ => .records j) :
      Py L Unit) := by
  refine keeps_session hr fun s a s' h => ⟨?_, ht⟩
  obtain rfl : s.deleteRecords ids = s' := by simpa using h
  exact effect_shrinks rfl nofun ⟨rfl, rfl, rfl⟩ (shrinks_deleteRecords s ids) rfl nofun

/-- The oldest record is removed by the retention. -/
theorem keeps_removeOldestManagedRemote (hr : A .routine) (ht : A .retention) :
    Keeps (Acts A j) V (removeOldestManagedRemote j : Py L ℕ) := by
  refine keeps_bind (keeps_query hr _) fun oldest => ?_
  cases oldest with
  | none => exact keeps_pure _
  | some r =>
    refine keeps_bind (keeps_transferDelete hr _) fun _ => ?_
    exact keeps_bind (keeps_deleteRecords hr ht _) fun _ => keeps_pure _

/-- So are those past the retention. -/
theorem keeps_enforceRetention (hr : A .routine) (ht : A .retention) (retention n : ℕ) :
    Keeps (Acts A j) V (enforceRetention j retention n : Py L Unit) := by
  induction n with
  | zero => exact keeps_hang hr
  | succ n ih =>
    refine keeps_bind (keeps_query hr _) fun count => ?_
    refine keeps_ite (fun _ => ?_) fun _ => keeps_pure _
    exact keeps_bind (keeps_removeOldestManagedRemote hr ht) fun _ => ih

/-- So are those past the quota. -/
theorem keeps_enforceQuota (hr : A .routine) (ht : A .retention) (requiredBytes n availableBytes : ℕ) :
    Keeps (Acts A j) V (enforceQuota j requiredBytes n availableBytes : Py L ℕ) := by
  induction n generalizing availableBytes with
  | zero => exact keeps_hang hr
  | succ n ih =>
    refine keeps_ite (fun _ => ?_) fun _ => keeps_pure _
    refine keeps_bind (keeps_query hr _) fun count => ?_
    refine keeps_ite (fun _ => ?_) fun _ => keeps_pure _
    refine keeps_bind (keeps_cancelRequested hr) fun cancel => ?_
    refine keeps_bind (keeps_raiseIf _ _) fun _ => ?_
    refine keeps_bind (keeps_removeOldestManagedRemote hr ht) fun removedBytes => ?_
    exact keeps_reply hr rfl (fun _ => keeps_ofReply _) fun quota => ih _

/-- **The preparation of capacity** is routine and retention. -/
theorem keeps_prepareCapacity (hr : A .routine) (ht : A .retention) (requiredBytes : ℕ) :
    Keeps (Acts A j) V (prepareCapacity j requiredBytes : Py L Unit) := by
  refine keeps_bind (keeps_query hr _) fun retention => keeps_call hr rfl fun bound => ?_
  refine keeps_bind (keeps_enforceRetention hr ht _ _) fun _ => ?_
  refine keeps_reply hr rfl (fun _ => keeps_ofReply _) fun quota => ?_
  refine keeps_call hr rfl fun bound => ?_
  exact keeps_bind (keeps_enforceQuota hr ht _ _ _) fun _ => keeps_raiseIf _ _

end Capacity

section Jobs

/-- A Drive job is ended. -/
theorem keeps_finishDrive (hr : A .routine) (hf : A .finish) (status : JobStatus) (step : String)
    (result : Dict)
    (h : status.isOutcome = true) :
    Keeps (Acts A j) V (finishJob j (Job.finishDrive status step result) : Py L Unit) :=
  keeps_finishJob hr hf (fun _ => ⟨rfl, rfl, rfl, rfl, fun h => nomatch h⟩) fun _ => h

/-- A Drive job is ended in failure, with a line of the log. -/
theorem keeps_finishDriveError (hr : A .routine) (hf : A .finish) (result : Dict)
    (status : JobStatus) (step error : String)
    (h : status.isOutcome = true) :
    Keeps (Acts A j) V (finishDriveError j result status step error : Py L Unit) :=
  keeps_bind (keeps_raiseIf _ _) fun _ => keeps_finishDrive hr hf _ _ _ h

/-- **The executor of a check.** -/
theorem keeps_executeDriveCheck : Keeps (Acts silent j) V (executeDriveCheck j : Py L Unit) := by
  refine keeps_bind (keeps_driveCheckpoint nofun _ _) fun _ => ?_
  refine keeps_reply nofun rfl (fun _ => keeps_ofReply _) fun quota => ?_
  refine keeps_reply nofun rfl (fun _ => keeps_ofReply _) fun remoteCount => ?_
  exact keeps_finishDrive nofun nofun _ _ _ rfl

/-- What the last session of an upload does. -/
theorem commitUpload_eq_ok {result : Dict} {remote : DriveFile} {createdAt : ℕ} {s s' : World}
    {p : JobStatus × JobStatus} (h : commitUpload j result remote createdAt s = .ok (p, s')) :
    ∃ job s₁ values, s.jobs.get j = some job ∧ p = (job.status, .succeeded) ∧
      s.insertRecord s.backups.nextId (remote.record j createdAt) = .ok s₁ ∧
      s' = s₁.modifyJob j (Job.finishDrive .succeeded "COMPLETED" values) := by
  rw [commitUpload] at h
  split_ifs at h
  obtain ⟨s₁, hs, h⟩ := except_bind_eq_ok.mp h
  obtain ⟨job, hj, h⟩ := except_bind_eq_ok.mp h
  obtain ⟨rfl, rfl⟩ : (job.status, JobStatus.succeeded) = p ∧ _ = s' := by
    simpa [Pure.pure, Except.pure] using h
  obtain ⟨hsame, -⟩ := insertRecord_stored (j := j) hs rfl
  exact ⟨job, s₁, _, by rw [← hsame.jobs, getOne_eq_ok hj], rfl, hs, rfl⟩

/-- What the last session of a download does. -/
theorem commitDownload_eq_ok {result : Dict} {artifact : BackupArtifact} {recordId : ℕ}
    {deleted : List ℕ} {s s' : World} {p : JobStatus × JobStatus}
    (h : commitDownload j result artifact recordId deleted s = .ok (p, s')) :
    ∃ job s₁ values, s.jobs.get j = some job ∧ p = (job.status, .succeeded) ∧
      s.insertRecord recordId (artifact.record j) = .ok s₁ ∧
      s' = (s₁.deleteRecords deleted).modifyJob j
        (Job.finishDrive .succeeded "COMPLETED" values) := by
  rw [commitDownload] at h
  obtain ⟨s₁, hs, h⟩ := except_bind_eq_ok.mp h
  obtain ⟨job, hj, h⟩ := except_bind_eq_ok.mp h
  obtain ⟨rfl, rfl⟩ : (job.status, JobStatus.succeeded) = p ∧ _ = s' := by
    simpa [Pure.pure, Except.pure] using h
  obtain ⟨hsame, -⟩ := insertRecord_stored (j := j) hs artifact.placed
  have hjobs : (s₁.deleteRecords deleted).jobs = s.jobs := hsame.jobs
  exact ⟨job, s₁, _, by rw [← hjobs, getOne_eq_ok hj], rfl, hs, rfl⟩

/-- To commit a transfer is to end its job. -/
theorem effect_finishDrive {s s₁ : World} {job : Job} {values : Dict} (hsame : SameJobs s s₁)
    (hstored : Stored j s s₁) (hfiles : s₁.localFiles = s.localFiles)
    (hj : s.jobs.get j = some job) :
    Effect j (.finish j job.status .succeeded) s
      (s₁.modifyJob j (Job.finishDrive .succeeded "COMPLETED" values)) := by
  have hj₁ : s₁.jobs.get j = some job := by rw [hsame.jobs, hj]
  have hrow : RowKept False job (Job.finishDrive .succeeded "COMPLETED" values job) :=
    ⟨rfl, rfl, rfl, rfl, fun h => nomatch h⟩
  exact effect_finish (hstored.shrinks (shrinks_modifyJob _ j _))
    (.of_sameJobs hsame (ended_modifyJob hj₁ hrow rfl)) hfiles fun h => absurd rfl h

/-- **An upload is committed**: its record and its end are one effect. -/
theorem effect_commitUpload {result : Dict} {remote : DriveFile} {createdAt : ℕ} {s s' : World}
    {p : JobStatus × JobStatus} (h : commitUpload j result remote createdAt s = .ok (p, s')) :
    Effect j (.finish j p.1 p.2) s s' := by
  obtain ⟨job, s₁, values, hj, rfl, hs, rfl⟩ := commitUpload_eq_ok h
  obtain ⟨hsame, hstored⟩ := insertRecord_stored hs rfl
  exact effect_finishDrive hsame hstored (insertRecord_localFiles hs) hj

/-- **A download is committed**: its record, its end and the removals are one effect. -/
theorem effect_commitDownload {result : Dict} {artifact : BackupArtifact} {recordId : ℕ}
    {deleted : List ℕ} {s s' : World} {p : JobStatus × JobStatus}
    (h : commitDownload j result artifact recordId deleted s = .ok (p, s')) :
    Effect j (.finish j p.1 p.2) s s' := by
  obtain ⟨job, s₁, values, hj, rfl, hs, rfl⟩ := commitDownload_eq_ok h
  obtain ⟨hsame, hstored⟩ := insertRecord_stored hs artifact.placed
  have hdeleted : SameJobs s (s₁.deleteRecords deleted) := ⟨hsame.jobs, hsame.lock, hsame.heartbeat⟩
  have hfiles := insertRecord_localFiles hs
  exact effect_finishDrive hdeleted (hstored.shrinks (shrinks_deleteRecords _ _)) hfiles hj

/-- **The executor of an upload.** -/
theorem keeps_executeDriveUpload (result : Dict) :
    Keeps (Acts silent j) V (executeDriveUpload j result : Py L Unit) := by
  refine keeps_bind (keeps_ofExcept _) fun recordId =>
    keeps_bind (keeps_driveCheckpoint nofun _ _) fun _ => ?_
  refine keeps_bind (keeps_query nofun _) fun requiredBytes => ?_
  refine keeps_bind (keeps_driveCheckpoint nofun _ _) fun _ => ?_
  refine keeps_bind (keeps_prepareCapacity nofun nofun _) fun _ => ?_
  refine keeps_bind (keeps_driveCheckpoint nofun _ _) fun _ => ?_
  refine keeps_bind (keeps_query nofun _) fun record => ?_
  refine keeps_bind (keeps_transferUpload nofun nofun nofun _ (keeps_cancelRequested nofun)) fun remote => ?_
  refine keeps_bind (keeps_driveCheckpoint nofun _ _) fun _ => keeps_tryCatch ?_ fun e => ?_
  · refine keeps_bind (keeps_session nofun fun s p s' h => ?_) fun _ => keeps_pure _
    exact ⟨effect_commitUpload h, nofun⟩
  · refine keeps_bind (keeps_bind (keeps_raiseIf _ _) fun _ => ?_) fun _ => keeps_raise _
    exact keeps_storageDelete nofun _

/-- **The executor of a download.** -/
theorem keeps_executeDriveDownload (result : Dict) :
    Keeps (Acts silent j) V (executeDriveDownload j result : Py L Unit) := by
  refine keeps_bind (keeps_ofExcept _) fun recordId =>
    keeps_bind (keeps_driveCheckpoint nofun _ _) fun _ => ?_
  refine keeps_bind (keeps_query nofun _) fun record => ?_
  refine keeps_bind (keeps_transferDownload nofun nofun _ (keeps_cancelRequested nofun))
    fun artifact => ?_
  refine keeps_bind (keeps_driveCheckpoint nofun _ _) fun _ => keeps_tryCatch ?_ fun e => ?_
  · refine keeps_bind (keeps_flushArtifact nofun nofun _) fun registered => ?_
    refine keeps_bind (keeps_query nofun _) fun retention => ?_
    refine keeps_bind (keeps_applyLocalRetention nofun _ _ _) fun deleted => ?_
    refine keeps_bind (keeps_commitSession nofun fun s p s' h => ?_) fun _ => keeps_pure _
    exact ⟨effect_commitDownload h, nofun⟩
  · exact keeps_bind (keeps_removeManagedArtifact .executor nofun _ nofun) fun _ => keeps_raise _

/-- **The executor of a remote delete.** -/
theorem keeps_executeDriveDelete (result : Dict) :
    Keeps (Acts silent j) V (executeDriveDelete j result : Py L Unit) := by
  refine keeps_bind (keeps_ofExcept _) fun recordId => ?_
  refine keeps_bind (keeps_driveCheckpoint nofun _ _) fun _ => ?_
  refine keeps_bind (keeps_query nofun _) fun record => ?_
  refine keeps_bind (keeps_transferDelete nofun _) fun _ => ?_
  exact keeps_bind (keeps_deleteRecords nofun nofun _) fun _ => keeps_finishDrive nofun nofun _ _ _ rfl

/-- Whatever the operation is. -/
theorem keeps_runDrive (result : Dict) (operation : DriveOperation) :
    Keeps (Acts silent j) V (runDrive j result operation : Py L Unit) := by
  cases operation with
  | check => exact keeps_executeDriveCheck
  | upload => exact keeps_executeDriveUpload _
  | download => exact keeps_executeDriveDownload _
  | delete => exact keeps_executeDriveDelete _

/-- The handlers of a Drive job. -/
theorem keeps_handleDrive (result : Dict) (e : Exn) :
    Keeps (Acts silent j) V (handleDrive j result e : Py L Unit) := by
  unfold handleDrive
  split
  · exact keeps_finishDriveError nofun nofun _ _ _ _ rfl
  · exact keeps_bind (keeps_finishDriveError nofun nofun _ _ _ _ rfl) fun _ => keeps_raise _

/-- **The executor of Drive jobs.** -/
theorem keeps_executeDrive : Keeps (Acts silent j) V (executeDrive j : Py L Unit) := by
  refine keeps_bind (keeps_query nofun _) fun ⟨operation, result⟩ => ?_
  exact keeps_tryCatch (keeps_runDrive _ _) (keeps_handleDrive _)

end Jobs

end PalworldManager
