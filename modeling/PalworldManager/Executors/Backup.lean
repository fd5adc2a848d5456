/-
# The local backup is busy with its own job

The classes of the checkpoints of all executors, and `Acts` for the local
backup: of the tables of jobs and locks it writes the row of its job only, and
what it writes there is progress or a final status.
-/

import PalworldManager.Executors.Frames

namespace PalworldManager

open Effects Text
open Effects.Exec hiding bind ask

variable {L α β : Type} {A : StepClass → Prop} {j : JobId} {V : L → L → Prop} [IsPreorder L V]

section Checkpoints

/-- What is put before the result of a job does not touch the preventive backup it names,
unless it names one itself. -/
theorem preventive_append (job : Job) (values : Dict)
    (hv : "preventive_backup_record_id" ∉ values.map Prod.fst) :
    ({ job with result := some (values ++ job.data) } : Job).preventive = job.preventive :=
  Dict.value_append hv

/-- A checkpoint writes progress, and turns cancellation on only if it says so. -/
theorem rowKept_checkpoint (read : Job) (step : String) (n : ℕ) (c : Bool) (job : Job) :
    RowKept (StepClass.checkpoint c = .opening) job (read.checkpoint step n c job) where
  kind := rfl
  cancelRequested := rfl
  requiresMaintenanceLock := rfl
  coordinationKey := rfl
  cancellable h := by
    rw [Job.checkpoint] at h
    cases c <;> simp_all [StepClass.checkpoint]

/-- A guard is an effect that leaves everything. -/
theorem effect_guard (s : World) (c passed : Bool) : Effect j (.guard j c passed) s s where
  about := rfl
  files := rfl
  records _ := rfl
  preventive _ := rfl
  stored := (Shrinks.refl s).stored j
  shrinks _ := .refl s
  same _ := .refl s
  progress _ := (SameJobs.refl s).progress j
  ended _ _ h := nomatch h

/-- **A checkpoint** is an effect on its job. -/
theorem effect_checkpoint (s : World) (read : Job) (step : String) (n : ℕ) (c pending : Bool) :
    Effect j (.checkpoint j c pending) s (s.modifyJob j (read.checkpoint step n c)) := by
  refine effect_modifyJob rfl ?_ ?_ (fun _ => rfl)
    (fun job => ⟨rowKept_checkpoint read step n c job, rfl⟩) fun _ _ => rfl
  · cases c <;> simp [Label.cls, StepClass.checkpoint]
  · cases c <;> simp [Label.cls, StepClass.checkpoint]

/-- A checkpoint is all that is done, where its class is allowed. -/
theorem keeps_checkpoint {c : Bool} (hc : A (.checkpoint c)) (cancelled : Exn) (step : String)
    (n : ℕ) : Keeps (Acts A j) V (checkpoint j cancelled step n c : Py L Job) := by
  refine keeps_bind (keeps_tx _ _ fun s => ⟨effect_guard s _ _, hc⟩) fun found => ?_
  refine keeps_bind (keeps_ofExcept _) fun read => ?_
  refine keeps_bind (keeps_tx _ _ fun s => ?_) fun _ => keeps_pure _
  exact ⟨effect_checkpoint s read step n c _, hc⟩

/-- The same of a backup. -/
theorem keeps_backupCheckpoint {c : Bool} (hc : A (.checkpoint c)) (step : String) (n : ℕ) :
    Keeps (Acts A j) V (backupCheckpoint j step n c : Py L Unit) :=
  keeps_bind (keeps_checkpoint hc _ _ _) fun _ => keeps_pure _

/-- The same of a Drive job. -/
theorem keeps_driveCheckpoint {c : Bool} (hc : A (.checkpoint c)) (step : String) (n : ℕ) :
    Keeps (Acts A j) V (driveCheckpoint j step n c : Py L Unit) :=
  keeps_bind (keeps_checkpoint hc _ _ _) fun _ => keeps_pure _

/-- The same of a restore, which guards and then writes. -/
theorem keeps_restoreCheckpoint (hr : A .routine) (hp : A .progress) (step : String) (n : ℕ)
    (destructive : Bool) :
    Keeps (Acts A j) V (restoreCheckpoint j step n destructive : Py L Unit) := by
  refine keeps_session hr fun s a s' hf => ⟨?_, hp⟩
  cases hj : s.getOne j with
  | error e => simp [hj, Bind.bind, Except.bind] at hf
  | ok job =>
    simp only [hj, Bind.bind, Except.bind] at hf
    split_ifs at hf
    obtain rfl : s.modifyJob j (Job.restoreCheckpoint step n destructive) = s' := by simpa using hf
    exact effect_modifyJob rfl (by simp [Label.cls]) (by simp [Label.cls]) (fun _ => rfl)
      (fun _ => ⟨⟨rfl, rfl, rfl, rfl, fun h => nomatch h⟩, rfl⟩) fun _ job =>
        preventive_append job _ (by simp)

/-- A line of the log is routine. -/
theorem keeps_appendJobLog (hr : A .routine) (message : String) :
    Keeps (Acts A j) V (appendJobLog j message : Py L Unit) :=
  keeps_bind (keeps_query hr _) fun _ =>
    keeps_ite (fun _ => keeps_appendLog hr _) fun _ => keeps_pure _

/-- The same of an update, with a line of the log. -/
theorem keeps_updateCheckpoint (hr : A .routine) {c : Bool} (hc : A (.checkpoint c)) (step : String)
    (n : ℕ) : Keeps (Acts A j) V (updateCheckpoint j step n c : Py L Unit) := by
  refine keeps_bind (keeps_checkpoint hc _ _ _) fun read => ?_
  exact keeps_ite (fun _ => keeps_appendJobLog hr _) fun _ => keeps_pure _

/-- A result is merged, but for the record of the preventive backup. -/
theorem keeps_mergeResult (hr : A .routine) (hp : A .progress) {values : Dict}
    (hv : "preventive_backup_record_id" ∉ values.map Prod.fst) :
    Keeps (Acts A j) V (mergeResult j values : Py L Unit) :=
  keeps_updateJob hr hp (fun _ => ⟨⟨rfl, rfl, rfl, rfl, .inl⟩, rfl⟩) fun job =>
    preventive_append job values hv

/-- The record of the preventive backup is reported. -/
theorem keeps_reportPreventive (hr : A .routine) (hrec : A .record) (id : ℕ) :
    Keeps (Acts A j) V (reportPreventive j id : Py L Unit) := by
  refine keeps_session hr fun s a s' hf => ⟨?_, hrec⟩
  obtain ⟨job, -, hw⟩ := except_map_eq_ok.mp hf
  obtain rfl : s.modifyJob j _ = s' := by simpa using hw
  exact effect_modifyJob rfl (by simp [Label.cls]) (by simp [Label.cls]) (fun _ => rfl)
    (fun _ => ⟨⟨rfl, rfl, rfl, rfl, .inl⟩, rfl⟩) nofun

end Checkpoints

section LocalBackup

/-- A job may be enqueued in the transaction that ends another one. -/
theorem ended_of_enqueued {s s₁ : World} {i : JobId} {recordId : ℕ} {trigger : String}
    {write : Job → Job} {job : Job}
    (henqueued : Enqueued (.driveUpload recordId trigger) s i s₁) (hj : s.jobs.get j = some job)
    (h : RowKept False job (write job))
    (ht : (write job).status.isOutcome = true) :
    Ended j job.status (write job).status s (s₁.modifyJob j write) := by
  obtain ⟨-, new, hnew, ⟨hkind, -⟩, rfl⟩ := henqueued
  have hkept : (s.addJob new).jobs.get j = some job := Table.get_add_of_some hj
  refine ⟨rfl, rfl, fun k job' hk hget => ?_, fun k job' hnone hget => ?_,
    ⟨job, write job, hj, by simp [hkept], h, rfl, rfl, ht⟩⟩
  · rw [World.modifyJob_get_ne _ hk]
    exact Table.get_add_of_some hget
  · have hk : k ≠ j := by
      rintro rfl
      simp [hnone] at hj
    rw [World.modifyJob_get_ne _ hk, World.addJob, Table.get_add] at hget
    split_ifs at hget
    · obtain rfl : new = job' := by simpa using hget
      exact ⟨hnew, hkind⟩
    · simp [hnone] at hget

/-- What the commit of a finished backup does, step by step: the record, the
deletes, the upload of an automatic backup, and the job. -/
theorem commitBackup_eq_ok {automatic : Bool} {trigger : String} {artifact : BackupArtifact}
    {recordId : ℕ} {deleted : List ℕ} {s s' : World} {p : JobStatus × JobStatus}
    (h : commitBackup automatic j trigger artifact recordId deleted s = .ok (p, s')) :
    ∃ job s₁ s₂ upload, s.jobs.get j = some job ∧ p = (job.status, .succeeded) ∧
      s.insertRecord recordId (artifact.record j) = .ok s₁ ∧
      (s₂ = s₁.deleteRecords deleted ∨ ∃ i, Enqueued (.driveUpload recordId "AUTOMATIC")
        (s₁.deleteRecords deleted) i s₂) ∧
      s' = s₂.modifyJob j (Job.finishBackup trigger recordId artifact upload) := by
  rw [commitBackup] at h
  obtain ⟨job, hj, h⟩ := except_bind_eq_ok.mp h
  obtain ⟨s₁, hs, h⟩ := except_bind_eq_ok.mp h
  simp only at h
  split_ifs at h with hauto
  · obtain ⟨⟨i, s₂⟩, hup, h⟩ := except_bind_eq_ok.mp h
    obtain ⟨rfl, rfl⟩ : (job.status, JobStatus.succeeded) = p ∧ _ = s' := by
      simpa [Pure.pure, Except.pure] using h
    exact ⟨job, s₁, s₂, _, getOne_eq_ok hj, rfl, hs,
      .inr ⟨i, enqueueDriveUpload_enqueued hup⟩, rfl⟩
  · obtain ⟨rfl, rfl⟩ : (job.status, JobStatus.succeeded) = p ∧ _ = s' := by
      simpa [Pure.pure, Except.pure] using h
    exact ⟨job, s₁, _, _, getOne_eq_ok hj, rfl, hs, .inl rfl, rfl⟩

/-- **A backup is committed**: the record, the result and the removals are one effect. -/
theorem effect_commitBackup {automatic : Bool} {trigger : String} {artifact : BackupArtifact}
    {recordId : ℕ} {deleted : List ℕ} {s s' : World} {p : JobStatus × JobStatus}
    (h : commitBackup automatic j trigger artifact recordId deleted s = .ok (p, s')) :
    Effect j (.finish j p.1 p.2) s s' := by
  obtain ⟨job, s₁, s₂, upload, hj, rfl, hs, hs₂, rfl⟩ := commitBackup_eq_ok h
  obtain ⟨hsame, hstored⟩ := insertRecord_stored (j := j) hs artifact.placed
  have hdeleted : SameJobs s (s₁.deleteRecords deleted) := ⟨hsame.jobs, hsame.lock, hsame.heartbeat⟩
  have hj₁ : (s₁.deleteRecords deleted).jobs.get j = some job := by rw [hdeleted.jobs, hj]
  have hrow : RowKept False job (Job.finishBackup trigger recordId artifact upload job) :=
    ⟨rfl, rfl, rfl, rfl, fun h => nomatch h⟩
  have hstored' := hstored.shrinks (shrinks_deleteRecords s₁ deleted)
  have hfiles : (s₁.deleteRecords deleted).localFiles = s.localFiles := by
    rw [World.deleteRecords, insertRecord_localFiles hs]
  rcases hs₂ with rfl | ⟨i, henqueued⟩
  · exact effect_finish (hstored'.shrinks (shrinks_modifyJob _ j _))
      (.of_sameJobs hdeleted (ended_modifyJob hj₁ hrow rfl)) hfiles fun h => absurd rfl h
  · have hfiles₂ : s₂.localFiles = s.localFiles := by
      obtain ⟨-, new, -, -, rfl⟩ := henqueued
      exact hfiles
    exact effect_finish ((hstored'.shrinks henqueued.shrinks).shrinks (shrinks_modifyJob _ j _))
      (.of_sameJobs hdeleted (ended_of_enqueued henqueued hj₁ hrow rfl)) hfiles₂ fun h => absurd rfl h

/-- A job is ended in failure. -/
theorem keeps_finishFailed (hr : A .routine) (hf : A .finish) {status : JobStatus}
    (step error : String) (h : status.isOutcome = true) :
    Keeps (Acts A j) V (finishJob j (Job.finishFailed status step error) : Py L Unit) :=
  keeps_finishJob hr hf (fun _ => ⟨rfl, rfl, rfl, rfl, fun h => nomatch h⟩) fun _ => h

/-- The body of a backup. -/
theorem keeps_runLocalBackup (automatic : Bool) (trigger : String) :
    Keeps (Acts silent j) anyLocals (runLocalBackup automatic j trigger) := by
  refine keeps_bind (keeps_createBackup nofun nofun fun step n c =>
    keeps_backupCheckpoint (silent_checkpoint c) step n) fun artifact => ?_
  refine keeps_bind (keeps_assign _ fun _ => trivial) fun _ => ?_
  refine keeps_bind (keeps_flushArtifact nofun nofun _) fun registered => ?_
  refine keeps_bind (keeps_query nofun _) fun retention => ?_
  refine keeps_bind (keeps_applyLocalRetention nofun _ _ _) fun deleted => ?_
  refine keeps_bind (keeps_commitSession nofun fun s p s' h => ?_) fun _ => keeps_pure _
  exact ⟨effect_commitBackup h, nofun⟩

/-- Its handlers. -/
theorem keeps_handleLocalBackup (e : Exn) :
    Keeps (Acts silent j) anyLocals (handleLocalBackup j e) := by
  cases e with
  | backupCancelled => exact keeps_finishFailed nofun nofun _ _ rfl
  | _ =>
    refine keeps_bind keeps_locals fun ℓ => keeps_bind (keeps_removeUnregistered nofun _) fun _ => ?_
    exact keeps_bind (keeps_finishFailed nofun nofun _ _ rfl) fun _ => keeps_raise _

/-- **The executor of a backup.** -/
theorem keeps_executeLocalBackup (automatic : Bool) :
    Keeps (Acts silent j) V (executeLocalBackup automatic j : Py L Unit) := by
  refine keeps_scope (keeps_bind (keeps_query nofun _) fun trigger => ?_)
  exact keeps_tryCatch (keeps_runLocalBackup automatic trigger) keeps_handleLocalBackup

end LocalBackup

end PalworldManager
