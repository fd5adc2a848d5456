/-
# What the steps of the system do to the tables

`Others j` is what a worker may rely on while it runs job `j`: whatever the
other parties do, the row of `j` stays, a cancellation is recorded only while the
row accepts one, and its status changes only to `INTERRUPTED`.  `Worked j` is
what it guarantees in turn.  `Turn` says what any step of the system may do, and
every theorem about whole runs goes by its cases.
-/

import PalworldManager.Executors.Server
import PalworldManager.System.Model

namespace PalworldManager

open Effects Text

variable {s s' s'' : World} {i j : JobId}

/-- What other parties may do to the row of a job that has been claimed. -/
structure Touched (job job' : Job) : Prop where
  kind : job'.kind = job.kind
  requiresMaintenanceLock : job'.requiresMaintenanceLock = job.requiresMaintenanceLock
  requested : job.cancelRequested = true → job'.cancelRequested = true
  accepted : job'.cancelRequested = true → job.cancelRequested = true ∨ job.isCancellable = true
  cancellable : job'.isCancellable = true → job.isCancellable = true
  status : job'.status = job.status ∧ job'.result = job.result ∨
    job.status = .running ∧ job'.status = .interrupted

/-- A row that nobody touched. -/
theorem Touched.refl (job : Job) : Touched job job :=
  ⟨rfl, rfl, id, .inl, id, .inl ⟨rfl, rfl⟩⟩

/-- A row that was touched twice. -/
theorem Touched.trans {job job' job'' : Job} (h : Touched job job') (h' : Touched job' job'') :
    Touched job job'' where
  kind := h'.kind.trans h.kind
  requiresMaintenanceLock := h'.requiresMaintenanceLock.trans h.requiresMaintenanceLock
  requested hr := h'.requested (h.requested hr)
  accepted hr := (h'.accepted hr).elim h.accepted fun hc => .inr (h.cancellable hc)
  cancellable hc := h.cancellable (h'.cancellable hc)
  status := by
    rcases h.status with ⟨hs, hres⟩ | ⟨hs, hint⟩
    · rcases h'.status with ⟨hs', hres'⟩ | ⟨hs', hint'⟩
      · exact .inl ⟨hs'.trans hs, hres'.trans hres⟩
      · exact .inr ⟨hs ▸ hs', hint'⟩
    · rcases h'.status with ⟨hs', -⟩ | ⟨hs', -⟩
      · exact .inr ⟨hs, hs'.trans hint⟩
      · simp [hint] at hs'

/-- A job that has been claimed is never pending again. -/
theorem Touched.not_pending {job job' : Job} (h : Touched job job') (hs : job.status ≠ .pending) :
    job'.status ≠ .pending := by
  rcases h.status with ⟨h', -⟩ | ⟨-, h'⟩
  · rwa [h']
  · simp [h']

/-- A job that has been claimed. -/
def World.Claimed (s : World) (j : JobId) : Prop :=
  ∃ job, s.jobs.get j = some job ∧ job.status ≠ .pending

/-- **The rely**: what other parties may do while a worker runs job `j`. -/
def Others (j : JobId) (s s' : World) : Prop :=
  ∀ job, s.jobs.get j = some job → job.status ≠ .pending →
    ∃ job', s'.jobs.get j = some job' ∧ Touched job job'

/-- Nothing is done. -/
theorem Others.refl (j : JobId) (s : World) : Others j s s := fun job h _ => ⟨job, h, .refl job⟩

/-- One thing is done after another. -/
theorem Others.trans (h : Others j s s') (h' : Others j s' s'') : Others j s s'' := by
  intro job hj hs
  obtain ⟨job', hj', ht⟩ := h job hj hs
  obtain ⟨job'', hj'', ht'⟩ := h' job' hj' (ht.not_pending hs)
  exact ⟨job'', hj'', ht.trans ht'⟩

/-- A world in which the row of `j` is the same. -/
theorem others_of_get (h : s'.jobs.get j = s.jobs.get j) : Others j s s' :=
  fun job hj _ => ⟨job, h ▸ hj, .refl job⟩

/-- **The guarantee**: what a worker does while it runs job `j`. -/
def Worked (j : JobId) (s : World) (e : Ev) (s' : World) : Prop :=
  Busy j s e s' ∨ e = .tx (.release j) ∧ s' = releaseMaintenanceLock j s

/-- Everything a worker does once it has claimed a job. -/
theorem keeps_processClaimed [Unicode] (cfg : WorkerConfig) (kind : JobKind) :
    Exec.Keeps (Worked j) Exec.anyLocals (processClaimed cfg j kind : Py Unit Unit) := by
  refine Exec.keeps_ensuring ((keeps_runClaimed cfg kind).mono fun _ _ _ h => .inl h.1) ?_
  exact Exec.keeps_bind (Exec.keeps_tx _ _ fun s => .inr ⟨rfl, rfl⟩) fun _ => Exec.keeps_ofExcept _

/-- The row of a job that is claimed, with the path of its log. -/
def Job.claimed (workerId : WorkerId) (path : String) (job : Job) : Job :=
  { job.claim workerId with logPath := some path }

/-- A claim: a pending job becomes running, and if it needs the lock it finds it
free, once the lock of a terminal job is gone, and takes it. -/
structure Claims (j : JobId) (s s' : World) : Prop where
  row : ∃ job w path, s.jobs.get j = some job ∧ job.status = .pending ∧
    s'.jobs.get j = some (job.claimed w path) ∧
    (if job.requiresMaintenanceLock then
      (releaseTerminalLocks s).lock = none ∧ s'.lock = some ⟨j, w⟩
    else s'.lock = (releaseTerminalLocks s).lock)
  heartbeat : s'.heartbeat = s.heartbeat
  others : ∀ i, i ≠ j → s'.jobs.get i = s.jobs.get i
  backups : s'.backups = s.backups
  localFiles : s'.localFiles = s.localFiles
  remoteFiles : s'.remoteFiles = s.remoteFiles

/-- The tables and the files as they were. -/
structure SameTables (s s' : World) : Prop where
  jobs : s'.jobs = s.jobs
  lock : s'.lock = s.lock
  backups : s'.backups = s.backups
  localFiles : s'.localFiles = s.localFiles
  remoteFiles : s'.remoteFiles = s.remoteFiles

/-- Nothing is written. -/
theorem SameTables.refl (s : World) : SameTables s s := ⟨rfl, rfl, rfl, rfl, rfl⟩

/-- A worker that starts writes its lease alone. -/
theorem recordWorkerStart_sameTables {w : WorkerId} (h : recordWorkerStart w s = .ok ((), s')) :
    SameTables s s' := by
  rw [recordWorkerStart] at h
  split at h
  · obtain rfl : _ = s' := by simpa using h
    exact ⟨rfl, rfl, rfl, rfl, rfl⟩
  · split_ifs at h
    obtain rfl : _ = s' := by simpa using h
    exact ⟨rfl, rfl, rfl, rfl, rfl⟩

/-- So does a heartbeat. -/
theorem recordWorkerHeartbeat_sameTables (w : WorkerId) (s : World) :
    SameTables s (recordWorkerHeartbeat w s) := by
  rw [recordWorkerHeartbeat]
  split
  · split_ifs
    · exact ⟨rfl, rfl, rfl, rfl, rfl⟩
    · exact .refl s
  · exact .refl s

/-- The occurrences that change neither a table nor a file. -/
def Occurrence.IsIdle : Occurrence → Prop
  | .request _ _ | .recover _ => False
  | .work _ (.ask a _) => a = (0, .createLog)
  | .work _ (.tx l) => l = .read
  | _ => True

/-- What a step of the system may do to the tables. -/
inductive Turn (s : World) : Occurrence → World → Prop
  | requested (r : WebRequest) : Turn s (.request r (handle s r).1) (handle s r).2
  | idle {o : Occurrence} {s' : World} (ho : o.IsIdle) (h : SameTables s s')
      (hwork : ∀ w e, o = .work w e → s' = s) : Turn s o s'
  | recovered (w : WorkerId) : Turn s (.recover w) (recoverInterruptedJobs s)
  | swept (w : WorkerId) : Turn s (.work w (.tx (.claim none))) (releaseTerminalLocks s)
  | claimed {s' : World} (w : WorkerId) (j : JobId) (h : Claims j s s') :
      Turn s (.work w (.tx (.claim (some j)))) s'
  | working {s' : World} (w : WorkerId) (j : JobId) (e : Ev) (h : Worked j s e s')
      (hj : s.Claimed j) : Turn s (.work w e) s'

section Others

/-- What leaves the tables is within the rely. -/
theorem SameTables.others (h : SameTables s s') : Others j s s' := others_of_get (by rw [h.jobs])

/-- A request is within the rely of every job. -/
theorem Requested.others (h : Requested s s') : Others j s s' := by
  intro job hj hs
  obtain ⟨job', hj', hrow⟩ := h.rows j job hj
  refine ⟨job', hj', ?_⟩
  cases hrow with
  | same => exact .refl job
  | stopNow => exact ⟨rfl, rfl, id, .inl, id, .inl ⟨rfl, rfl⟩⟩
  | cancel haccepts =>
    simp only [Job.acceptsCancel, Bool.and_eq_true] at haccepts
    exact ⟨rfl, rfl, fun _ => rfl, fun _ => .inr haccepts.1.2, id, .inl ⟨rfl, rfl⟩⟩
  | cancelPending _ _ hpending _ => exact absurd hpending hs

/-- So is a recovery. -/
theorem others_recoverInterruptedJobs : Others j s (recoverInterruptedJobs s) := by
  intro job hj hs
  refine ⟨_, by rw [recoverInterruptedJobs_get, hj, Option.map_some], ?_⟩
  split_ifs with hr
  · exact ⟨rfl, rfl, id, .inl, by simp [Job.interrupt], .inr ⟨hr, rfl⟩⟩
  · exact .refl job

/-- So is releasing the lock of a terminal job. -/
theorem others_releaseTerminalLocks : Others j s (releaseTerminalLocks s) := others_of_get rfl

/-- A claim finds its job pending, so it is no other job that has been claimed. -/
theorem others_of_claims (h : Claims i s s') : Others j s s' := by
  intro job hj hs
  obtain ⟨job', w, path, hi, hpending, -⟩ := h.row
  have hij : j ≠ i := by
    rintro rfl
    obtain rfl : job = job' := by simpa [hj] using hi
    exact hs hpending
  exact others_of_get (h.others j hij) job hj hs

/-- What a worker does to its own job is within the rely of another. -/
theorem others_of_busy {e : Ev} (h : Busy i s e s') (hij : j ≠ i) : Others j s s' := by
  rcases h.cases with hp | ⟨found, new, -, hend⟩
  · exact others_of_get (hp.others j hij)
  · exact fun job hj _ => ⟨job, hend.others j job hij hj, .refl job⟩

/-- So is all that it does in its round. -/
theorem others_of_worked {e : Ev} (h : Worked i s e s') (hij : j ≠ i) : Others j s s' := by
  rcases h with h | ⟨-, rfl⟩
  · exact others_of_busy h hij
  · exact others_of_get rfl

end Others

/-- What the session of a claim does. -/
theorem claimJob_eq_ok {cfg : WorkerConfig} {log : Except Fault String}
    {c : Option (JobId × JobKind)} (h : claimJob cfg log s = .ok (c, s')) :
    c = none ∧ s' = releaseTerminalLocks s ∨
      ∃ j kind, c = some (j, kind) ∧ Claims j s s' ∧
        ∃ job, s.jobs.get j = some job ∧ job.kind = kind := by
  rcases claimNextJob_cases cfg.workerId cfg.supports s with hnone | ⟨j, job, hj, -, hs, hl, hclaim⟩
  · simp only [claimJob, hnone] at h
    obtain ⟨rfl, rfl⟩ : none = c ∧ releaseTerminalLocks s = s' := by simpa using h
    exact .inl ⟨rfl, rfl⟩
  · simp only [claimJob, hclaim] at h
    cases log with
    | error f => simp at h
    | ok path =>
      obtain ⟨rfl, rfl⟩ : some (j, (job.claim cfg.workerId).kind) = c ∧ _ = s' := by simpa using h
      refine .inr ⟨j, job.kind, rfl, ⟨⟨job, cfg.workerId, path, hj, hs, ?_, ?_⟩, rfl, fun i hi => ?_, rfl,
        rfl, rfl⟩, job, hj, rfl⟩
      · simp [World.modifyJob, Table.get_modify_self, hj, Job.claimed]
      · split_ifs with hreq
        · exact ⟨hl hreq, by simp [World.modifyJob]⟩
        · simp [World.modifyJob]
      · simp [World.modifyJob, Table.get_modify_ne _ hi]

end PalworldManager
