/-
# Every executor ends its job

`Settles j kind` marks the steps after which job `j` is no longer running: a
completion, and any step that finds the job no longer running.  A local backup
and a restore have one way out without either: a call that removes an artifact
they could not register raises inside their handler, and the exception escapes
(`backups/jobs.py`, `restores/jobs.py`).  It is marked too, as `strands`.

The lemmas follow the text of the executors and of the worker's fallbacks
(`lifecycle/worker.py`), up to the statement that ends the job.
-/

import PalworldManager.Effects.Paths
import PalworldManager.Executors.Server

namespace PalworldManager

open Effects Text
open Effects.Exec hiding bind ask

variable {L α β : Type} {j : JobId} {kind : JobKind}

/-- The kinds whose handlers let an exception of their own cleanup escape. -/
def JobKind.leavesCleanup : JobKind → Bool
  | .localBackup | .restore _ => true
  | _ => false

/-- A call that removes an artifact that could not be registered raises. -/
def cleanupRaises : Ev → Bool
  | .ask (_, .resolve .executor _) (.error _) => true
  | .ask (_, .isFile .executor _) (.error _) => true
  | .ask (_, .unlink .executor _) (.error _) => true
  | _ => false

/-- The exception of a cleanup escapes from the executor. -/
def strands (kind : JobKind) (e : Ev) : Bool := kind.leavesCleanup && cleanupRaises e

/-- The row of job `j` is there, and of its kind. -/
def Present (j : JobId) (kind : JobKind) (s : World) : Prop :=
  ∃ job, s.jobs.get j = some job ∧ job.kind = kind

/-- A step after which job `j` is not running, or is left running for good. -/
def Settles (j : JobId) (kind : JobKind) (s : World) (e : Ev) : Prop :=
  (∃ found new, e = .tx (.finish j found new)) ∨ strands kind e = true ∨
    ∃ job, s.jobs.get j = some job ∧ job.status ≠ .running

/-- A body that does not get through without settling its job. -/
abbrev Ends (j : JobId) (kind : JobKind) (E : Exn → Prop) (x : Py L α) : Prop :=
  x.Passes (Present j kind) (Settles j kind) nothing E

section Rules

variable {F : World → Ev → Prop} {J : World → Prop} {N : α → Prop} {E : Exn → Prop}

/-- A call answers somehow. -/
theorem passes_call (c : Call) : (ask j c : Py L (Reply c)).Passes J F anything E :=
  passes_ask (j, c)

/-- A session ends the job, or goes on well. -/
theorem passes_session {f : World → Except Exn (α × World)} {label : α → Label}
    (hok : ∀ s a s', J s → f s = .ok (a, s') → F s (.tx (label a)) ∨ N a)
    (herror : ∀ s e, J s → f s = .error e → F s (.tx .read) ∨ E e) :
    (session f label : Py L α).Passes J F N E := by
  refine passes_bind (N := fun r => (∀ a, r = .ok a → N a) ∧ ∀ e, r = .error e → E e)
    (passes_tx fun s hs => ?_) fun r hr => passes_ofExcept hr.1 hr.2
  cases hf : f s with
  | error e =>
    refine (herror s e hs hf).imp_right fun hE => ⟨fun _ ha => (nomatch ha), fun _ he => ?_⟩
    exact Except.error.inj he ▸ hE
  | ok r =>
    obtain ⟨a, s'⟩ := r
    refine (hok s a s' hs hf).imp_right fun hN => ⟨fun _ ha => ?_, fun _ he => (nomatch he)⟩
    exact Except.ok.inj ha ▸ hN

/-- So does a query. -/
theorem passes_query {f : World → Except Exn α}
    (hok : ∀ s a, J s → f s = .ok a → F s (.tx .read) ∨ N a)
    (herror : ∀ s e, J s → f s = .error e → F s (.tx .read) ∨ E e) :
    (query f : Py L α).Passes J F N E := by
  refine passes_session (fun s a s' hs h => ?_) fun s e hs h => herror s e hs ?_
  · obtain ⟨b, hb, hpair⟩ := except_map_eq_ok.mp h
    obtain ⟨rfl, -⟩ : b = a ∧ s = s' := by simpa using hpair
    exact hok s b hs hb
  · cases hf : f s with
    | ok a => simp [hf, Except.map] at h
    | error e' => simpa [hf, Except.map] using h

/-- A line of the log is written or not. -/
theorem passes_appendLog (message : String) :
    (appendLog j message : Py L Unit).Passes J F anything E :=
  passes_bind (passes_call _) fun _ _ => passes_pure trivial

end Rules

/-- **A completion ends the job**: the row is there, so its session does not
raise. -/
theorem ends_finishJob {E : Exn → Prop} (write : Job → Job) :
    Ends j kind E (finishJob j write : Py L Unit) := by
  refine passes_before (passes_session (fun s a s' _ h => ?_) fun s e hs h => ?_)
  · obtain ⟨job, -, hw⟩ := except_map_eq_ok.mp h
    obtain ⟨rfl, -⟩ : (job.status, (write job).status) = a ∧ _ = s' := by simpa using hw
    exact .inl (.inl ⟨_, _, rfl⟩)
  · obtain ⟨job, hj, -⟩ := hs
    simp [getOne_of_some hj, Except.map] at h

/-- The one session of a transfer or a backup that registers it and ends the job. -/
theorem ends_commit {f : World → Except Exn ((JobStatus × JobStatus) × World)} :
    Ends j kind anything (session f (fun p => .finish j p.1 p.2) : Py L _) :=
  passes_session (fun _ _ _ _ _ => .inl (.inl ⟨_, _, rfl⟩)) fun _ _ _ _ => .inr trivial

section Server

/-- **A lifecycle job is ended**, or its executor raises. -/
theorem ends_executeLifecycleJob :
    Ends j kind anything (executeLifecycleJob j : Py L Unit) :=
  passes_after fun _ => passes_after fun _ => passes_after fun _ => ends_finishJob _

/-- A shutdown that is completed is ended. -/
theorem ends_completeShutdownJob {E : Exn → Prop} (result : AssistedShutdownResult) :
    Ends j kind E (completeShutdownJob j result : Py L Unit) := ends_finishJob _

/-- A request to the host ends its job, or raises. -/
theorem ends_requestHostPower (action : HostPowerAction) (initial : PalworldHealthState)
    (handling : String) :
    Ends j kind anything (requestHostPower j action initial handling : Py L Unit) := by
  refine passes_after fun _ => passes_after fun requested => ?_
  exact passes_ite (fun _ => ends_finishJob _) fun _ => ends_finishJob _

/-- **A host power job is ended**, or its executor raises. -/
theorem ends_executeHostPower : Ends j kind anything (executeHostPower j : Py L Unit) := by
  refine passes_after fun _ => passes_after fun _ => passes_after fun initial => ?_
  refine passes_ite (fun _ => ends_requestHostPower _ _ _) fun _ => ?_
  refine passes_after fun _ => passes_after fun result => ?_
  exact passes_ite (fun _ => ends_requestHostPower _ _ _) fun _ => ends_finishJob _

/-- Its fallback ends it. -/
theorem ends_failHostPower (action : HostPowerAction) :
    Ends j (.hostPower action) nothing (failHostPower j : Py L Unit) := by
  refine passes_bind (N := anything) (passes_query (fun _ _ _ _ => .inr trivial) ?_)
    fun _ _ => ends_finishJob _
  rintro s e ⟨job, hj, hkind⟩ h
  simp [getOne_of_some hj, hkind, Bind.bind, Except.bind] at h

end Server

section Update

/-- An update that fails is ended. -/
theorem ends_failUpdate {E : Exn → Prop} (category message : String) (review : Bool)
    (recordId : Option ℕ) :
    Ends j kind E (failUpdate j category message review recordId : Py L Unit) :=
  passes_before (ends_finishJob _)

/-- **An update check is ended**, or its executor raises. -/
theorem ends_executeUpdateCheck : Ends j kind anything (executeUpdateCheck j : Py L Unit) := by
  refine passes_tryCatch (E := anything) ?_ fun _ _ => ends_failUpdate _ _ _ _
  refine passes_after fun _ => passes_after fun _ => passes_after fun _ => passes_after fun _ => ?_
  exact passes_after fun _ => passes_after fun _ => passes_after fun _ =>
    passes_before (ends_finishJob _)

/-- An update that is completed is ended. -/
theorem ends_completeUpdate (request : UpdateRequest) (before after : SteamBuildInfo) :
    Ends j kind anything (completeUpdate j request before after) :=
  passes_after fun _ => passes_before (ends_finishJob _)

/-- The body of an update ends the job, or raises. -/
theorem ends_runUpdate [Unicode] (request : UpdateRequest) :
    Ends j kind anything (runUpdate j request) := by
  refine passes_after fun _ => passes_after fun _ => passes_after fun _ => passes_after fun _ => ?_
  refine passes_after fun _ => passes_after fun _ => passes_after fun before => passes_after fun _ => ?_
  refine passes_ite (fun _ => ?_) fun _ => ends_finishJob _
  exact passes_after fun _ => passes_after fun _ => passes_after fun _ => ends_completeUpdate _ _ _

/-- Its handlers end the job. -/
theorem ends_handleUpdate {E : Exn → Prop} (request : UpdateRequest) (e : Exn) :
    Ends j kind E (handleUpdate j request e) := by
  refine passes_bind passes_locals fun ℓ _ => ?_
  cases e with
  | updateCancelled => exact passes_before (ends_finishJob _)
  | _ => exact ends_failUpdate _ _ _ _

/-- An update is ended, whatever its body raises. -/
theorem ends_executeUpdate [Unicode] : Ends j kind anything (executeUpdate j : Py L Unit) := by
  refine passes_scope (passes_bind (N := fun r => r.isSome = true)
    (passes_tryCatch (E := anything) ?_ fun _ _ => ?_) fun request hrequest => ?_)
  · exact passes_after fun _ => passes_pure rfl
  · exact passes_before (ends_failUpdate _ _ _ _)
  · cases request with
    | none => cases hrequest
    | some request =>
      exact passes_ensuring (passes_tryCatch (ends_runUpdate _) fun e _ => ends_handleUpdate _ _)
        (passes_anything _)

/-- **An update job is ended**, or its executor raises. -/
theorem ends_executeUpdateJob [Unicode] :
    Ends j kind anything (executeUpdateJob j : Py L Unit) := by
  refine passes_after fun kind => ?_
  split
  · exact ends_executeUpdateCheck
  · exact ends_executeUpdate
  · exact passes_raise trivial

/-- The fallback of an update lets a job be that it finds settled. -/
theorem ends_failUnexpectedUpdate : Ends j kind nothing (failUnexpectedUpdate j : Py L Unit) := by
  refine passes_bind (N := fun job : Job => job.status = .running)
    (passes_query (fun s job _ h => ?_) fun s e hs h => ?_) fun job hrunning => ?_
  · have hj := getOne_eq_ok h
    by_cases hr : job.status = .running
    · exact .inr hr
    · exact .inl (.inr (.inr ⟨job, hj, hr⟩))
  · obtain ⟨job, hj, -⟩ := hs
    simp [getOne_of_some hj] at h
  · refine passes_ite (fun _ => ends_failUpdate _ _ _ _) fun h => ?_
    simp [hrunning, JobStatus.isActive] at h

end Update

section Backup

/-- The body of a backup ends the job, or raises. -/
theorem ends_runLocalBackup (automatic : Bool) (trigger : String) :
    Ends j kind anything (runLocalBackup automatic j trigger) := by
  refine passes_after fun _ => passes_after fun _ => passes_after fun _ => passes_after fun _ => ?_
  exact passes_after fun _ => passes_before (passes_after fun _ => ends_commit)

/-- An exception of a removal by an executor is marked. -/
theorem passes_removeManagedArtifact (hkind : kind.leavesCleanup = true) (path : String) :
    (removeManagedArtifact j .executor path : Py L Bool).Passes (Present j kind) (Settles j kind)
      anything nothing := by
  have hmarked {c : Call} {r : Reply c} (h : cleanupRaises (.ask (j, c) r) = true) :
      ∀ s, Present j kind s → Settles j kind s (.ask (j, c) r) :=
    fun s _ => .inr (.inl (by simp [strands, hkind, h]))
  refine passes_bind (N := anything) (passes_ite (fun _ => passes_ask_bind fun r => ?_)
    fun _ => passes_pure trivial) fun managed _ => ?_
  · rcases r with f | b
    · exact .inl (hmarked rfl)
    · exact .inr (passes_pure trivial)
  refine passes_ite (fun _ => passes_ask_bind fun r => ?_) fun _ => passes_pure trivial
  rcases r with f | isFile
  · exact .inl (hmarked rfl)
  refine .inr (passes_bind (N := anything) (passes_pure trivial) fun isFile _ => ?_)
  refine passes_ite (fun _ => passes_ask_bind fun r => ?_) fun _ => passes_pure trivial
  rcases r with f | u
  · exact .inl (hmarked rfl)
  refine .inr (passes_bind (N := anything) (passes_pure trivial) fun _ _ => ?_)
  refine passes_bind (N := anything) (passes_tx fun _ _ => .inr trivial) fun _ _ => ?_
  exact passes_pure trivial

/-- An archive without a record is removed, or the cleanup raises. -/
theorem passes_removeUnregistered (hkind : kind.leavesCleanup = true)
    (artifact : Option BackupArtifact) :
    (removeUnregistered j artifact : Py L Unit).Passes (Present j kind) (Settles j kind)
      anything nothing := by
  cases artifact with
  | none => exact passes_pure trivial
  | some a =>
    exact passes_bind (passes_removeManagedArtifact hkind _) fun _ _ => passes_pure trivial

/-- The handlers of a local backup. -/
theorem ends_tryLocalBackup (automatic : Bool) (trigger : String) :
    Ends j .localBackup nothing
      (Exec.tryCatch (runLocalBackup automatic j trigger) (handleLocalBackup j)) := by
  refine passes_tryCatch (ends_runLocalBackup automatic trigger) fun e _ => ?_
  cases e with
  | backupCancelled => exact ends_finishJob _
  | _ =>
    refine passes_bind passes_locals fun ℓ _ => ?_
    refine passes_bind (passes_removeUnregistered rfl _) fun _ _ => ?_
    exact passes_before (ends_finishJob _)

end Backup

section Restore

/-- The body of a restore ends the job, or raises. -/
theorem ends_runRestore [Unicode] (driveService : Bool) (request : RestoreRequest) :
    Ends j kind anything (runRestore driveService j request) := by
  refine passes_after fun _ => passes_after fun _ => passes_after fun _ => passes_after fun _ => ?_
  exact passes_after fun _ => ends_finishJob _

/-- A restore that fails is ended. -/
theorem ends_failRestore {E : Exn → Prop} (request : RestoreRequest) (category message : String) :
    Ends j kind E (failRestore j request category message) :=
  passes_bind passes_locals fun _ _ => ends_finishJob _

/-- A preventive backup without a record is removed, or the cleanup raises. -/
theorem passes_removePreventive (hkind : kind.leavesCleanup = true)
    (preventive : Option BackupArtifact) (recordId : Option ℕ) :
    (removePreventive j preventive recordId : Py L Unit).Passes (Present j kind) (Settles j kind)
      anything nothing :=
  passes_ite (fun _ => passes_removeUnregistered hkind _) fun _ => passes_pure trivial

/-- The handlers of a restore. -/
theorem ends_tryRestore [Unicode] (driveService : Bool) (request : RestoreRequest)
    (hkind : kind.leavesCleanup = true) :
    Ends j kind nothing
      (Exec.tryCatch (runRestore driveService j request) (handleRestore j request)) := by
  refine passes_tryCatch (ends_runRestore driveService request) fun e _ => ?_
  unfold handleRestore
  split
  · exact ends_failRestore _ _ _
  · refine passes_bind passes_locals fun ℓ _ => ?_
    refine passes_bind (passes_removePreventive hkind _ _) fun _ _ => ?_
    exact passes_before (ends_failRestore _ _ _)

end Restore

section Drive

/-- The body of a Drive job ends it, or raises. -/
theorem ends_runDrive (result : Dict) (operation : DriveOperation) :
    Ends j kind anything (runDrive j result operation : Py L Unit) := by
  cases operation with
  | check =>
    exact passes_after fun _ => passes_after fun _ => passes_after fun _ => passes_after fun _ =>
      passes_after fun _ => ends_finishJob _
  | upload =>
    refine passes_after fun _ => passes_after fun _ => passes_after fun _ => passes_after fun _ => ?_
    refine passes_after fun _ => passes_after fun _ => passes_after fun _ => passes_after fun _ => ?_
    refine passes_after fun _ => passes_tryCatch (E := anything) (passes_before ends_commit) fun _ _ => ?_
    exact passes_after fun _ => passes_raise trivial
  | download =>
    refine passes_after fun _ => passes_after fun _ => passes_after fun _ => passes_after fun _ => ?_
    refine passes_after fun _ => passes_tryCatch (E := anything) ?_ fun _ _ =>
      passes_after fun _ => passes_raise trivial
    exact passes_after fun _ => passes_after fun _ => passes_after fun _ =>
      passes_before (passes_after fun _ => ends_commit)
  | delete =>
    refine passes_after fun _ => passes_after fun _ => passes_after fun _ => passes_after fun _ => ?_
    exact passes_after fun _ => ends_finishJob _

/-- A Drive job that fails is ended. -/
theorem ends_finishDriveError {E : Exn → Prop} {result : Dict} (status : JobStatus)
    (step error : String)
    (h : isAuditAction ("DRIVE_" ++ ((result.lookup "operation").map Value.text).getD "OPERATION")) :
    Ends j kind E (finishDriveError j result status step error : Py L Unit) := by
  refine passes_bind (N := anything) ?_ fun _ _ => ends_finishJob _
  rw [raiseIf, if_neg (by simp [h])]
  exact passes_pure trivial

/-- The handlers of a Drive job. -/
theorem ends_tryDrive {result : Dict} (operation : DriveOperation)
    (h : isAuditAction ("DRIVE_" ++ ((result.lookup "operation").map Value.text).getD "OPERATION")) :
    Ends j kind nothing
      (Exec.tryCatch (runDrive j result operation) (handleDrive j result) : Py L Unit) := by
  refine passes_tryCatch (ends_runDrive result operation) fun e _ => ?_
  unfold handleDrive
  split
  · exact ends_finishDriveError _ _ _ h
  · exact passes_before (ends_finishDriveError _ _ _ h)

end Drive

section Fallback

/-- The kinds that the worker ends when their executor raised. -/
def JobKind.hasFallback : JobKind → Bool
  | .localBackup | .restore _ | .drive _ => false
  | _ => true

/-- **A fallback ends the job.** -/
theorem ends_fallback (hkind : kind.hasFallback = true) :
    Ends j kind nothing (fallback j kind : Py L Unit) := by
  cases kind with
  | lifecycle action => exact ends_finishJob _
  | shutdown kind => exact ends_finishJob _
  | updateCheck => exact ends_failUnexpectedUpdate
  | update => exact ends_failUnexpectedUpdate
  | hostPower action => exact ends_failHostPower action
  | _ => cases hkind

/-- **An executor ends the job**, or raises. -/
theorem ends_executor [Unicode] (cfg : WorkerConfig) (hkind : kind.hasFallback = true) :
    Ends j kind anything (executor cfg j kind : Py L Unit) := by
  cases kind with
  | lifecycle action => exact ends_executeLifecycleJob
  | shutdown kind =>
    cases kind with
    | assisted => exact passes_after fun _ => passes_after fun _ => ends_completeShutdownJob _
    | _ => exact passes_after fun _ => passes_after fun _ => ends_completeShutdownJob _
  | updateCheck => exact ends_executeUpdateJob
  | update => exact ends_executeUpdateJob
  | hostPower action => exact ends_executeHostPower
  | _ => cases hkind

end Fallback

end PalworldManager
