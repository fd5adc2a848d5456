/-
# Rules for the bodies of jobs

The equations of `Exec.wp` and the closure rules of `Exec.Keeps` for the
statements of `PalworldManager.Jobs.Runtime`.

The theorems about runs tell a dozen classes of steps apart (`StepClass`).
`Effect j` says what a transaction run for job `j` may do, class by class, and
`Acts A j` that a step is run for `j`, has that effect, and is of a class in
`A`.  A lemma about a body lists the classes it needs, so that one lemma serves
both the question what a body may touch and the question what it never does.
-/

import PalworldManager.Requests.Spec

namespace PalworldManager

open Effects

variable {L α β : Type}

/-- The classes of steps that the theorems about runs tell apart:

* `routine`: a call that no theorem speaks of, or a transaction that leaves jobs
  and locks as they are and at most removes files and records of backups;
* `progress`: a write of progress;
* `opening` and `closing`: a checkpoint that lets the job be cancelled, or not;
* `publish`: a backup file appears, or its own job removes it again;
* `retention`: a record is flushed, and files and records of older backups go;
* `call`: a call whose place in the order of events matters;
* `server`: a call that stops the server or updates it;
* `signal`: a signal to the process of the server;
* `cleanup`: the removal of an artifact that could not be registered;
* `record`, `mark`, `finish`: a record committed and named in the result of the job, the
  irreversible mark, the end;
* `round`: a step of the worker outside of any job. -/
inductive StepClass where
  | routine | progress | opening | closing | publish | retention | call | server | signal | cleanup
  | record | mark | finish | round
  deriving DecidableEq, Repr

/-- The class of a call at an artifact. -/
def ArtifactSite.cls : ArtifactSite → StepClass
  | .transfer => .routine
  | .retention => .retention
  | .publication => .publish
  | .executor => .cleanup

/-- The class of a file operation. -/
def StorageOp.cls : StorageOp → StepClass
  | .chmod => .publish
  | _ => .routine

/-- The class of a call. -/
def Call.cls : Call → StepClass
  | .lifecycle .stop _ | .applyUpdate => .server
  | .now | .lifecycle _ _ | .steamCheck | .history _ | .prepare _ | .prepareRemote _ | .apply
  | .hostPower _ | .moveto _ _ => .call
  | .sendSignal _ => .signal
  | .resolve site _ | .isFile site _ | .unlink site _ => site.cls
  | .storage op => op.cls
  | _ => .routine

/-- The class of a checkpoint. -/
def StepClass.checkpoint (cancellable : Bool) : StepClass :=
  if cancellable then .opening else .closing

/-- The class of a transaction. -/
def Label.cls : Label → StepClass
  | .read | .deleted _ _ => .routine
  | .staged _ _ | .records _ => .retention
  | .write _ => .progress
  | .guard _ c _ | .checkpoint _ c _ => .checkpoint c
  | .published _ _ _ => .publish
  | .removed _ .transfer _ => .retention
  | .removed _ site _ => site.cls
  | .record _ _ | .reported _ _ => .record
  | .irreversible _ _ => .mark
  | .finish _ _ _ => .finish
  | .claim _ | .release _ | .recover | .lease => .round

/-- The class of a step. -/
def stepClass : Ev → StepClass
  | .ask a _ => a.2.cls
  | .tx l => l.cls

/-- The classes of transactions that put no file and no record anywhere. -/
def StepClass.isShrinking : StepClass → Bool
  | .publish | .record | .finish => false
  | _ => true

/-- The job on whose behalf a transaction is. -/
def Label.About (j : JobId) : Label → Prop
  | .read => True
  | .write i | .guard i _ _ | .checkpoint i _ _ | .records i | .published i _ _ | .removed i _ _
  | .deleted i _ | .staged i _ | .record i _ | .reported i _ | .irreversible i _
  | .finish i _ _ => i = j
  | .claim _ | .release _ | .recover | .lease => False

/-- Where a record of its location must point. -/
def BackupRecord.wellPlaced (record : BackupRecord) : Prop :=
  record.storagePath = match record.location with
    | .drive => record.filename
    | .local => localStoragePath record.filename

/-- What the row of a job keeps under every step of its executor; cancellation
is turned on again only where `opens` says so. -/
structure RowKept (opens : Prop) (job job' : Job) : Prop where
  kind : job'.kind = job.kind
  cancelRequested : job'.cancelRequested = job.cancelRequested
  requiresMaintenanceLock : job'.requiresMaintenanceLock = job.requiresMaintenanceLock
  coordinationKey : job'.coordinationKey = job.coordinationKey
  cancellable : job'.isCancellable = true → job.isCancellable = true ∨ opens

/-- The statuses that an executor ends its job with. -/
def JobStatus.isOutcome : JobStatus → Bool
  | .succeeded | .failed | .cancelled => true
  | _ => false

/-- What a job ends with is not active. -/
theorem JobStatus.isActive_of_isOutcome {x : JobStatus} (h : x.isOutcome = true) :
    x.isActive = false := by
  cases x <;> first | rfl | cases h

/-- The tables of jobs and locks, and the lease, as they were. -/
structure SameJobs (s s' : World) : Prop where
  jobs : s'.jobs = s.jobs
  lock : s'.lock = s.lock
  heartbeat : s'.heartbeat = s.heartbeat

/-- Of the tables of jobs and locks only the row of `j` is written, and in it
neither the status nor what `RowKept` names. -/
structure Progress (j : JobId) (opens : Prop) (s s' : World) : Prop where
  lock : s'.lock = s.lock
  heartbeat : s'.heartbeat = s.heartbeat
  others : ∀ i, i ≠ j → s'.jobs.get i = s.jobs.get i
  row : ∀ job, s.jobs.get j = some job →
    ∃ job', s'.jobs.get j = some job' ∧ RowKept opens job job' ∧ job'.status = job.status

/-- The end of job `j`: of the rows there are only that of `j` is written, and an
automatic upload may be inserted. -/
structure Ended (j : JobId) (found new : JobStatus) (s s' : World) : Prop where
  lock : s'.lock = s.lock
  heartbeat : s'.heartbeat = s.heartbeat
  others : ∀ i job, i ≠ j → s.jobs.get i = some job → s'.jobs.get i = some job
  fresh : ∀ i job, s.jobs.get i = none → s'.jobs.get i = some job →
    job.Fresh ∧ job.kind = .drive .upload
  row : ∃ job job', s.jobs.get j = some job ∧ s'.jobs.get j = some job' ∧ RowKept False job job' ∧
    job.status = found ∧ job'.status = new ∧ new.isOutcome = true

/-- Files and records of backups at most disappear. -/
structure Shrinks (s s' : World) : Prop where
  records : ∀ id r, s'.backups.get id = some r → s.backups.get id = some r
  localFiles : ∀ n i, s'.localFiles n = some i → s.localFiles n = some i
  remoteFiles : ∀ n i, s'.remoteFiles n = some i → s.remoteFiles n = some i

/-- Files of backups appear for job `j` only, and records that say where. -/
structure Stored (j : JobId) (s s' : World) : Prop where
  records : ∀ id r, s'.backups.get id = some r → s.backups.get id = some r ∨ r.wellPlaced
  localFiles : ∀ n i, s'.localFiles n = some i → s.localFiles n = some i ∨ i = j
  remoteFiles : ∀ n i, s'.remoteFiles n = some i → s.remoteFiles n = some i ∨ i = j

/-- What a transaction does to the local backup files. -/
def Label.files : Label → (String → Option JobId) → String → Option JobId
  | .published i .local path, f => Function.update f path (some i)
  | .removed _ _ path, f => Function.update f path none
  | _, f => f

/-- The transactions that may change the records of backups. -/
def Label.commits : Label → Bool
  | .record _ _ | .records _ | .finish _ _ .succeeded => true
  | _ => false

/-- The transactions that may change what the result of their job says of a preventive
backup. -/
def Label.reports : Label → Bool
  | .reported _ _ | .finish _ _ _ => true
  | _ => false

/-- The preventive backup that the result of a job names. -/
def Job.preventive (job : Job) : Value := job.data.value "preventive_backup_record_id"

/-- What a transaction run for job `j` may do. -/
structure Effect (j : JobId) (l : Label) (s s' : World) : Prop where
  about : l.About j
  files : s'.localFiles = l.files s.localFiles
  records : l.commits = false → s'.backups = s.backups
  preventive : l.reports = false → (s'.jobs.get j).map Job.preventive =
    (s.jobs.get j).map Job.preventive
  stored : Stored j s s'
  shrinks : l.cls.isShrinking = true → Shrinks s s'
  same : l.cls = .routine → SameJobs s s'
  progress : l.cls ≠ .finish → Progress j (l.cls = .opening) s s'
  ended : ∀ found new, l = .finish j found new → Ended j found new s s'

/-- What ends the job ends this job. -/
theorem Label.cls_finish {j : JobId} {l : Label} (hl : l.cls = .finish) (habout : l.About j) :
    ∃ found new, l = .finish j found new := by
  cases l with
  | finish i found new => exact ⟨found, new, by rw [show i = j from habout]⟩
  | guard _ c _ => cases c <;> cases hl
  | checkpoint _ c _ => cases c <;> cases hl
  | removed _ site _ => cases site <;> cases hl
  | _ => cases hl

/-- A step run for job `j`. -/
def Busy (j : JobId) (s : World) : Ev → World → Prop
  | .ask a _, s' => a.1 = j ∧ s' = s
  | .tx l, s' => Effect j l s s'

/-- A step run for job `j`, of one of the classes `A`. -/
def Acts (A : StepClass → Prop) (j : JobId) (s : World) (e : Ev) (s' : World) : Prop :=
  Busy j s e s' ∧ A (stepClass e)

/-- Steps of every class. -/
def anyClass : StepClass → Prop := fun _ => True

/-- No signal is sent. -/
abbrev silent : StepClass → Prop := fun c => c ≠ .signal

/-- The classes of steps that a job of a kind may take: only a forced shutdown
sends signals. -/
def JobKind.allows (kind : JobKind) : StepClass → Prop := fun c =>
  c = .signal → kind = .shutdown .forceTerm ∨ kind = .shutdown .forceKill

/-- A silent class is allowed to every kind. -/
theorem allows_of_silent {kind : JobKind} (c : StepClass) (h : silent c) : kind.allows c :=
  fun hc => absurd hc h

/-- A checkpoint is silent. -/
theorem silent_checkpoint (c : Bool) : silent (.checkpoint c) := by cases c <;> nofun

section Relations

variable {A A' : StepClass → Prop} {j : JobId} {opens : Prop} {s s₁ s' : World} {e : Ev} {l : Label}

/-- A row keeps what it has. -/
theorem RowKept.refl (job : Job) : RowKept opens job job := ⟨rfl, rfl, rfl, rfl, .inl⟩

/-- Nothing changes the jobs. -/
theorem SameJobs.refl (s : World) : SameJobs s s := ⟨rfl, rfl, rfl⟩

/-- What changes no job is progress. -/
theorem SameJobs.progress (h : SameJobs s s') (j : JobId) : Progress j opens s s' where
  lock := h.lock
  heartbeat := h.heartbeat
  others _ _ := by rw [h.jobs]
  row job hj := ⟨job, by rw [h.jobs, hj], .refl job, rfl⟩

/-- A job that is ended after other tables changed is ended. -/
theorem Ended.of_sameJobs {found new : JobStatus} (h : SameJobs s s₁)
    (h' : Ended j found new s₁ s') : Ended j found new s s' where
  lock := h'.lock.trans h.lock
  heartbeat := h'.heartbeat.trans h.heartbeat
  others i job hi hget := h'.others i job hi (by rw [h.jobs, hget])
  fresh i job hnone := h'.fresh i job (by rw [h.jobs, hnone])
  row := by
    obtain ⟨job, job', hj, hrest⟩ := h'.row
    exact ⟨job, job', by rw [← h.jobs, hj], hrest⟩

/-- Nothing grows where nothing happens. -/
theorem Shrinks.refl (s : World) : Shrinks s s := ⟨fun _ _ => id, fun _ _ => id, fun _ _ => id⟩

/-- What shrinks stores nothing else. -/
theorem Shrinks.stored (h : Shrinks s s') (j : JobId) : Stored j s s' where
  records id r hr := .inl (h.records id r hr)
  localFiles n i hn := .inl (h.localFiles n i hn)
  remoteFiles n i hn := .inl (h.remoteFiles n i hn)

/-- What is stored and then shrinks is stored. -/
theorem Stored.shrinks (h : Stored j s s₁) (h' : Shrinks s₁ s') : Stored j s s' where
  records i r hi := h.records i r (h'.records i r hi)
  localFiles n i hn := h.localFiles n i (h'.localFiles n i hn)
  remoteFiles n i hn := h.remoteFiles n i (h'.remoteFiles n i hn)

/-- A request stores nothing. -/
theorem Enqueued.shrinks {r : WebRequest} {i : JobId} (h : Enqueued r s i s') : Shrinks s s' := by
  obtain ⟨-, job, -, -, rfl⟩ := h
  exact ⟨fun _ _ => id, fun _ _ => id, fun _ _ => id⟩

/-- Neither does a change of a job. -/
theorem shrinks_modifyJob (s : World) (i : JobId) (write : Job → Job) :
    Shrinks s (s.modifyJob i write) :=
  ⟨fun _ _ => id, fun _ _ => id, fun _ _ => id⟩

/-- A transaction that only shrinks the stores and leaves jobs and locks as they are. -/
theorem effect_shrinks (habout : l.About j) (hf : l.cls ≠ .finish) (hsame : SameJobs s s')
    (hshrinks : Shrinks s s') (hfiles : s'.localFiles = l.files s.localFiles)
    (hrecords : l.commits = false → s'.backups = s.backups) : Effect j l s s' where
  about := habout
  files := hfiles
  records := hrecords
  preventive _ := by rw [hsame.jobs]
  stored := hshrinks.stored j
  shrinks _ := hshrinks
  same _ := hsame
  progress _ := hsame.progress j
  ended _ _ h := by simp [h, Label.cls] at hf

/-- A look is an effect that leaves everything. -/
theorem effect_read (j : JobId) (s : World) : Effect j .read s s :=
  effect_shrinks trivial nofun (.refl s) (.refl s) rfl fun _ => rfl

/-- A transaction that leaves jobs and locks as they are. -/
theorem effect_stored (habout : l.About j) (hl : l.cls.isShrinking = false)
    (hf : l.cls ≠ .finish) (hsame : SameJobs s s') (hstored : Stored j s s')
    (hfiles : s'.localFiles = l.files s.localFiles)
    (hrecords : l.commits = false → s'.backups = s.backups) : Effect j l s s' where
  about := habout
  files := hfiles
  records := hrecords
  preventive _ := by rw [hsame.jobs]
  stored := hstored
  shrinks h := by simp [hl] at h
  same h := by simp [h, StepClass.isShrinking] at hl
  progress _ := hsame.progress j
  ended _ _ h := by simp [h, Label.cls] at hf

/-- A write to the row of `j` that keeps its status and what `RowKept` names. -/
theorem effect_modifyJob {write : Job → Job} (habout : l.About j) (hr : l.cls ≠ .routine)
    (hf : l.cls ≠ .finish) (hfiles : ∀ f, l.files f = f)
    (h : ∀ job, RowKept (l.cls = .opening) job (write job) ∧ (write job).status = job.status)
    (hpreventive : l.reports = false → ∀ job, (write job).preventive = job.preventive) :
    Effect j l s (s.modifyJob j write) where
  about := habout
  files := (hfiles _).symm
  records _ := rfl
  preventive hl := by
    rw [World.modifyJob_get_self, Option.map_map]
    exact congrArg (Option.map · (s.jobs.get j)) (funext (hpreventive hl))
  stored := (shrinks_modifyJob s j write).stored j
  shrinks _ := shrinks_modifyJob s j write
  same h := absurd h hr
  progress _ :=
    { lock := rfl
      heartbeat := rfl
      others := fun _ hi => World.modifyJob_get_ne s hi write
      row := fun job hj => ⟨write job, by simp [hj], h job⟩ }
  ended _ _ h := by simp [h, Label.cls] at hf

/-- A job whose row gets an outcome is ended. -/
theorem ended_modifyJob {write : Job → Job} {job : Job} (hj : s.jobs.get j = some job)
    (h : RowKept False job (write job)) (ht : (write job).status.isOutcome = true) :
    Ended j job.status (write job).status s (s.modifyJob j write) where
  lock := rfl
  heartbeat := rfl
  others i job' hi hget := by rwa [World.modifyJob_get_ne s hi]
  fresh i job' hnone hget := by
    by_cases hi : i = j
    · subst hi
      simp [hnone] at hj
    · simp [hi, hnone] at hget
  row := ⟨job, write job, hj, by simp [hj], h, rfl, rfl, ht⟩

/-- The end of a job. -/
theorem effect_finish {found new : JobStatus} (hstored : Stored j s s')
    (hended : Ended j found new s s') (hfiles : s'.localFiles = s.localFiles)
    (hrecords : new ≠ .succeeded → s'.backups = s.backups) :
    Effect j (.finish j found new) s s' where
  about := rfl
  files := hfiles
  records h := hrecords fun hnew => by simp [hnew, Label.commits] at h
  preventive h := nomatch h
  stored := hstored
  shrinks h := by simp [Label.cls, StepClass.isShrinking] at h
  same h := by simp [Label.cls] at h
  progress h := by simp [Label.cls] at h
  ended _ _ h := by
    obtain ⟨-, rfl, rfl⟩ := Label.finish.inj h
    exact hended

/-- More classes may be allowed. -/
theorem Acts.mono (h : Acts A j s e s') (hA : ∀ c, A c → A' c) : Acts A' j s e s' :=
  ⟨h.1, hA _ h.2⟩

/-- A step of an executor stores files and records of its own job only. -/
theorem Busy.stored (h : Busy j s e s') : Stored j s s' := by
  cases e with
  | ask a r => exact h.2 ▸ (Shrinks.refl s).stored j
  | tx l => exact Effect.stored h

/-- A routine step changes no job. -/
theorem Busy.sameJobs (h : Busy j s e s') (hr : stepClass e = .routine) : SameJobs s s' := by
  cases e with
  | ask a r => exact h.2 ▸ .refl s
  | tx l => exact Effect.same h hr

/-- A step that does not end the job. -/
theorem Busy.progress (h : Busy j s e s') (hf : stepClass e ≠ .finish) :
    Progress j (stepClass e = .opening) s s' := by
  cases e with
  | ask a r =>
    obtain ⟨-, rfl⟩ := h
    exact (SameJobs.refl s').progress j
  | tx l => exact Effect.progress h hf

/-- A step either leaves the status of its job or ends it. -/
theorem Busy.cases (h : Busy j s e s') :
    Progress j (stepClass e = .opening) s s' ∨
      ∃ found new, e = .tx (.finish j found new) ∧ Ended j found new s s' := by
  by_cases hf : stepClass e = .finish
  · cases e with
    | ask a r =>
      obtain ⟨-, rfl⟩ := h
      exact .inl ((SameJobs.refl s').progress j)
    | tx l =>
      obtain ⟨found, new, rfl⟩ := Label.cls_finish hf (Effect.about h)
      exact .inr ⟨found, new, rfl, Effect.ended h found new rfl⟩
  · exact .inl (h.progress hf)

/-- A step of these classes stores nothing. -/
theorem Busy.shrinks (h : Busy j s e s') (hs : (stepClass e).isShrinking = true) :
    Shrinks s s' := by
  cases e with
  | ask a r => exact h.2 ▸ .refl s
  | tx l => exact Effect.shrinks h hs

end Relations

section Wp

variable {R : World → World → Prop} {G : World → List Ev → Ev → World → Prop}
  {Q : α → L → World → List Ev → Prop} {E : Exn → L → World → List Ev → Prop}
  {ℓ : L} {s : World} {tr : List Ev}

/-- **The rule of a call** on behalf of a job. -/
@[simp]
theorem wp_call (j : JobId) (c : Call) {Q : Reply c → L → World → List Ev → Prop} :
    Exec.wp R G (ask j c : Py L (Reply c)) Q E ℓ s tr ↔
      ∀ s₁, R s s₁ → ∀ r, G s₁ tr (.ask (j, c) r) s₁ ∧ Q r ℓ s₁ (tr ++ [.ask (j, c) r]) :=
  Exec.wp_ask _

/-- An answer is returned, or its fault raised. -/
@[simp]
theorem wp_ofReply (r : Except Fault α) :
    Exec.wp R G (ofReply r : Py L α) Q E ℓ s tr ↔
      (∀ a, r = .ok a → Q a ℓ s tr) ∧ ∀ f, r = .error f → E (.fault f) ℓ s tr := by
  cases r <;> simp [ofReply, Except.mapError, Exec.wp_ofExcept]

/-- **The rule of the session**: it commits what its body computes, or changes
nothing and raises. -/
theorem wp_session (f : World → Except Exn (α × World)) (label : α → Label) :
    Exec.wp R G (session f label : Py L α) Q E ℓ s tr ↔
      ∀ s₁, R s s₁ →
        (∀ a s', f s₁ = .ok (a, s') →
          G s₁ tr (.tx (label a)) s' ∧ Q a ℓ s' (tr ++ [.tx (label a)])) ∧
        ∀ e, f s₁ = .error e → G s₁ tr (.tx .read) s₁ ∧ E e ℓ s₁ (tr ++ [.tx .read]) := by
  rw [session, Exec.wp_bind, Exec.wp_tx]
  refine forall_congr' fun s₁ => imp_congr_right fun _ => ?_
  cases hf : f s₁ with
  | error e => simp
  | ok p =>
    obtain ⟨b, s'⟩ := p
    simp only [Exec.wp_ofExcept_ok, Except.ok.injEq, Prod.mk.injEq, reduceCtorEq, false_imp_iff,
      implies_true, and_true]
    exact ⟨fun h a s'' hb => hb.1 ▸ hb.2 ▸ h, fun h => h b s' ⟨rfl, rfl⟩⟩

/-- **The rule of a query**: the others may have changed the tables before it. -/
theorem wp_query (f : World → Except Exn α) :
    Exec.wp R G (query f : Py L α) Q E ℓ s tr ↔
      ∀ s₁, R s s₁ → G s₁ tr (.tx .read) s₁ ∧
        (∀ a, f s₁ = .ok a → Q a ℓ s₁ (tr ++ [.tx .read])) ∧
        ∀ e, f s₁ = .error e → E e ℓ s₁ (tr ++ [.tx .read]) := by
  rw [query, wp_session]
  refine forall_congr' fun s₁ => imp_congr_right fun _ => ?_
  cases hf : f s₁ with
  | error e => simp [Except.map]
  | ok a => simp [Except.map]

/-- A completion, or the exception for a row that is not there. -/
theorem wp_finishJob (j : JobId) (write : Job → Job)
    {Q : Unit → L → World → List Ev → Prop} :
    Exec.wp R G (finishJob j write : Py L Unit) Q E ℓ s tr ↔
      ∀ s₁, R s s₁ →
        (∀ job, s₁.jobs.get j = some job →
          G s₁ tr (.tx (.finish j job.status (write job).status)) (s₁.modifyJob j write) ∧
            Q () ℓ (s₁.modifyJob j write)
              (tr ++ [.tx (.finish j job.status (write job).status)])) ∧
        (s₁.jobs.get j = none →
          G s₁ tr (.tx .read) s₁ ∧ E .noResultFound ℓ s₁ (tr ++ [.tx .read])) := by
  rw [finishJob, Exec.wp_bind, wp_session]
  refine forall_congr' fun s₁ => imp_congr_right fun _ => ?_
  rw [World.getOne]
  cases s₁.jobs.get j with
  | none => simp [Except.map]
  | some job => simp [Except.map]

/-- A line of the log is written or not. -/
theorem wp_appendLog (j : JobId) (message : String) {Q : Unit → L → World → List Ev → Prop} :
    Exec.wp R G (appendLog j message : Py L Unit) Q E ℓ s tr ↔
      ∀ s₁, R s s₁ → ∀ r : Bool, G s₁ tr (.ask (j, .appendLog message) r) s₁ ∧
        Q () ℓ s₁ (tr ++ [.ask (j, .appendLog message) r]) := by
  rw [appendLog, Exec.wp_bind, wp_call]
  simp only [Exec.wp_pure]

end Wp

section Keeps

variable {A : StepClass → Prop} {j : JobId} {V : L → L → Prop} [IsPreorder L V]

omit [IsPreorder L V] in
/-- More classes may be allowed to a program. -/
theorem keeps_acts_mono {A' : StepClass → Prop} {x : Py L α}
    (hx : Exec.Keeps (Acts A j) V x) (hA : ∀ c, A c → A' c) : Exec.Keeps (Acts A' j) V x :=
  hx.mono fun _ _ _ h => h.mono hA

/-- An answer takes no step. -/
theorem keeps_ofReply {P : World → Ev → World → Prop} (r : Except Fault α) :
    Exec.Keeps P V (ofReply r : Py L α) :=
  Exec.keeps_ofExcept _

/-- A call is of its class. -/
theorem keeps_ask (c : Call) (hA : A c.cls) : Exec.Keeps (Acts A j) V (ask j c : Py L (Reply c)) :=
  Exec.keeps_ask _ fun _ _ => ⟨⟨rfl, rfl⟩, hA⟩

/-- A session does what its label says, or raises and changes nothing. -/
theorem keeps_session (hr : A .routine) {f : World → Except Exn (α × World)} {label : α → Label}
    (hok : ∀ s a s', f s = .ok (a, s') → Effect j (label a) s s' ∧ A (label a).cls) :
    Exec.Keeps (Acts A j) V (session f label : Py L α) := by
  refine Exec.keeps_bind (Exec.keeps_tx _ _ fun s => ?_) fun _ => Exec.keeps_ofExcept _
  cases hf : f s with
  | error e => exact ⟨effect_read j s, hr⟩
  | ok p => exact hok s p.1 p.2 hf

/-- A query is routine. -/
theorem keeps_query (hr : A .routine) (f : World → Except Exn α) :
    Exec.Keeps (Acts A j) V (query f : Py L α) := by
  refine keeps_session hr fun s a s' h => ?_
  obtain ⟨b, -, hb⟩ := except_map_eq_ok.mp h
  obtain ⟨rfl, rfl⟩ : b = a ∧ s = s' := by simpa using hb
  exact ⟨effect_read j s, hr⟩

/-- A loop past its bound asks once more, in routine. -/
theorem keeps_hang (hr : A .routine) : Exec.Keeps (Acts A j) V (hang j : Py L α) :=
  Exec.keeps_bind (keeps_ask _ hr) fun e => nomatch e

/-- A line of the log is routine. -/
theorem keeps_appendLog (hr : A .routine) (message : String) :
    Exec.Keeps (Acts A j) V (appendLog j message : Py L Unit) :=
  Exec.keeps_bind (keeps_ask _ hr) fun _ => Exec.keeps_pure _

/-- What is got is the row of the job. -/
theorem getOne_eq_ok {s : World} {job : Job} (h : s.getOne j = .ok job) :
    s.jobs.get j = some job := by
  rw [World.getOne] at h
  cases hj : s.jobs.get j with
  | none => simp [hj] at h
  | some job' => simpa [hj] using h

/-- A job that is there is got. -/
theorem getOne_of_some {s : World} {job : Job} (h : s.jobs.get j = some job) :
    s.getOne j = .ok job := by
  rw [World.getOne, h]

/-- **A job is updated**, but for its status: progress. -/
theorem keeps_updateJob (hr : A .routine) (hp : A .progress) {write : Job → Job}
    (h : ∀ job, RowKept False job (write job) ∧ (write job).status = job.status)
    (hpreventive : ∀ job, (write job).preventive = job.preventive) :
    Exec.Keeps (Acts A j) V (updateJob j write : Py L Unit) := by
  refine keeps_session hr fun s a s' hf => ?_
  obtain ⟨job, -, hw⟩ := except_map_eq_ok.mp hf
  obtain rfl : s.modifyJob j write = s' := by simpa using hw
  exact ⟨effect_modifyJob rfl (by simp [Label.cls]) (by simp [Label.cls]) (fun _ => rfl)
    (by simpa [Label.cls] using h) fun _ => hpreventive, hp⟩

/-- **A job is ended**: the one class that does so. -/
theorem keeps_finishJob (hr : A .routine) (hf : A .finish) {write : Job → Job}
    (h : ∀ job, RowKept False job (write job)) (ht : ∀ job, (write job).status.isOutcome = true) :
    Exec.Keeps (Acts A j) V (finishJob j write : Py L Unit) := by
  refine Exec.keeps_bind (keeps_session hr fun s a s' hok => ?_) fun _ => Exec.keeps_pure _
  obtain ⟨job, hj, hw⟩ := except_map_eq_ok.mp hok
  obtain ⟨rfl, rfl⟩ : (job.status, (write job).status) = a ∧ s.modifyJob j write = s' := by
    simpa using hw
  exact ⟨effect_finish ((shrinks_modifyJob s j write).stored j)
    (ended_modifyJob (getOne_eq_ok hj) (h job) (ht job)) rfl fun _ => rfl, hf⟩

end Keeps

end PalworldManager
