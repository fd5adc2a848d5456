/-
# How the rows of jobs move

What a step of the system does to a row that is there (`Turn.moved`), and what a
row is that was not there before (`Turn.inserted`).  The kind of a job, its need of
the maintenance lock and its coordination key are never written again, and no
job becomes active a second time.  Over whole runs the kinds are those of the
history (`Run.kinds`).
-/

import PalworldManager.System.Status

namespace PalworldManager

open Effects Text

section Rows

variable {s s' : World} {j : JobId} {job job' : Job} {o : Occurrence}

/-- How the row of job `j` may move in one step. -/
structure RowMoved (o : Occurrence) (j : JobId) (job job' : Job) : Prop where
  kind : job'.kind = job.kind
  requiresMaintenanceLock : job'.requiresMaintenanceLock = job.requiresMaintenanceLock
  coordinationKey : job'.coordinationKey = job.coordinationKey
  active : job'.status.isActive = true → job.status.isActive = true
  running : job'.status = .running → job.status = .running ∨ o.claims = some j
  interrupted : job'.status = .interrupted → job.status = .interrupted ∨
    job.status = .running ∧ ∃ w, o = .recover w

/-- A row whose status, kind, key and need of the lock are as they were. -/
theorem RowMoved.of_status (hkind : job'.kind = job.kind)
    (hlock : job'.requiresMaintenanceLock = job.requiresMaintenanceLock)
    (hkey : job'.coordinationKey = job.coordinationKey) (hs : job'.status = job.status) :
    RowMoved o j job job' :=
  ⟨hkind, hlock, hkey, fun h => hs ▸ h, fun h => .inl (hs ▸ h), fun h => .inl (hs ▸ h)⟩

/-- A row that is as it was. -/
theorem RowMoved.refl (job : Job) : RowMoved o j job job :=
  .of_status rfl rfl rfl rfl

/-- What the web process does to a row. -/
theorem RowRequested.moved (h : RowRequested job job') : RowMoved o j job job' := by
  cases h with
  | same => exact .refl job
  | stopNow => exact .of_status rfl rfl rfl rfl
  | cancel => exact .of_status rfl rfl rfl rfl
  | cancelPending => exact ⟨rfl, rfl, rfl, nofun, nofun, nofun⟩

/-- What the worker of one job does to the row of any. -/
theorem moved_of_busy {i : JobId} {e : Ev} (h : Busy i s e s')
    (hj : s.jobs.get j = some job) :
    ∃ job', s'.jobs.get j = some job' ∧ RowMoved o j job job' := by
  rcases h.cases with hp | ⟨found, new, -, hend⟩
  · by_cases hij : j = i
    · subst hij
      obtain ⟨job', hj', hrow, hs⟩ := hp.row job hj
      exact ⟨job', hj', .of_status hrow.kind hrow.requiresMaintenanceLock hrow.coordinationKey hs⟩
    · exact ⟨job, by rw [hp.others j hij, hj], .refl job⟩
  · by_cases hij : j = i
    · subst hij
      obtain ⟨job₁, job', hj₁, hj', hrow, -, rfl, hnew⟩ := hend.row
      obtain rfl : job = job₁ := by simpa [hj] using hj₁
      have hinactive := JobStatus.isActive_of_isOutcome hnew
      refine ⟨job', hj', hrow.kind, hrow.requiresMaintenanceLock, hrow.coordinationKey, ?_, ?_, ?_⟩
      · exact fun h => by simp [hinactive] at h
      · exact fun h => by simp [h, JobStatus.isOutcome] at hnew
      · exact fun h => by simp [h, JobStatus.isOutcome] at hnew
    · exact ⟨job, hend.others j job hij hj, .refl job⟩

/-- **What a step does to a row.** -/
theorem Turn.moved (t : Turn s o s') (hj : s.jobs.get j = some job) :
    ∃ job', s'.jobs.get j = some job' ∧ RowMoved o j job job' := by
  cases t with
  | requested r =>
    obtain ⟨job', hj', hrow⟩ := (handle_requested s r).rows j job hj
    exact ⟨job', hj', hrow.moved⟩
  | idle _ h _ => exact ⟨job, by rw [h.jobs, hj], .refl job⟩
  | recovered w =>
    refine ⟨_, by rw [recoverInterruptedJobs_get, hj, Option.map_some], ?_⟩
    split_ifs with hr
    · exact ⟨rfl, rfl, rfl, nofun, nofun, fun _ => .inr ⟨hr, w, rfl⟩⟩
    · exact .refl job
  | swept w => exact ⟨job, hj, .refl job⟩
  | claimed w i h =>
    by_cases hij : j = i
    · subst hij
      obtain ⟨job₁, w', path, hj₁, hpending, hj', -⟩ := h.row
      obtain rfl : job = job₁ := by simpa [hj] using hj₁
      refine ⟨_, hj', rfl, rfl, rfl, fun _ => ?_, fun _ => .inr rfl, nofun⟩
      rw [hpending]
      rfl
    · exact ⟨job, by rw [h.others j hij, hj], .refl job⟩
  | working w i e h hi =>
    rcases h with h | ⟨-, rfl⟩
    · exact moved_of_busy h hj
    · exact ⟨job, hj, .refl job⟩

/-- No job runs after a recovery. -/
theorem Turn.recovered_not_running {w : WorkerId} (t : Turn s (.recover w) s')
    (hj : s'.jobs.get j = some job) : job.status ≠ .running := by
  cases t with
  | idle ho _ _ => exact ho.elim
  | recovered _ => exact recoverInterruptedJobs_not_running hj

/-- A row that was not there was inserted by a request, or is that of an automatic
upload. -/
theorem Turn.inserted (t : Turn s o s') (hnone : s.jobs.get j = none)
    (hj : s'.jobs.get j = some job) :
    job.Fresh ∧ ((∃ r, o = .request r (.enqueued j) ∧ r.Inserts s job) ∨
      job.kind = .drive .upload) := by
  have hsame (h : s'.jobs.get j = s.jobs.get j) {p : Prop} : p := by simp [h, hnone] at hj
  cases t with
  | requested r =>
    obtain ⟨hanswer, hr⟩ := handle_inserts hnone hj
    exact ⟨(handle_requested s r).fresh j job hnone hj, .inl ⟨r, by rw [hanswer], hr⟩⟩
  | idle _ h _ => exact hsame (by rw [h.jobs])
  | recovered w => simp [recoverInterruptedJobs_get, hnone] at hj
  | swept w => exact hsame rfl
  | claimed w i h =>
    obtain ⟨job₁, -, -, hi, -⟩ := h.row
    exact hsame (h.others j fun hij => by simp [← hij, hnone] at hi)
  | working w i e h hi =>
    obtain ⟨job₁, hi, -⟩ := hi
    have hij : j ≠ i := fun hij => by simp [← hij, hnone] at hi
    rcases h with h | ⟨-, rfl⟩
    · rcases h.cases with hp | ⟨found, new, -, hend⟩
      · exact hsame (hp.others j hij)
      · exact (hend.fresh j job hnone hj).imp_right .inr
    · exact hsame rfl

/-- A row that was not there is a fresh one. -/
theorem Turn.fresh (t : Turn s o s') (hnone : s.jobs.get j = none)
    (hj : s'.jobs.get j = some job) : job.Fresh := (t.inserted hnone hj).1

end Rows

namespace System

variable [Unicode] {allowed : Policy} {s₀ : World} {h : History} {S S' : System}

/-- What a step of a run under the contract `K` does to the row of job `j`. -/
inductive RowStepped (K : Contract) (S : System) (o : Occurrence) (S' : System) (j : JobId)
    (job : Job) : Job → Prop
  | kept : RowStepped K S o S' j job job
  | requested {job' : Job} (h : RowRequested job job') : RowStepped K S o S' j job job'
  | interrupted (h : job.status = .running) : RowStepped K S o S' j job job.interrupt
  | claimed (w : WorkerId) (path : String) (h : job.status = .pending) :
      RowStepped K S o S' j job (job.claimed w path)
  | worked {job' : Job} (w : WorkerId) (tr : List Ev) (e : Ev) (ho : o = .work w e)
      (hG : K.guarantee j job.kind S.world tr e S'.world) (hw : Worked j S.world e S'.world) :
      RowStepped K S o S' j job job'

/-- **What a step does to a row**, under a contract. -/
theorem Stepped.row {K : Contract} {o : Occurrence} (hs : Stepped K S o S') {j : JobId} {job : Job}
    (hj : S.world.jobs.get j = some job) :
    ∃ job', S'.world.jobs.get j = some job' ∧ RowStepped K S o S' j job job' := by
  obtain ⟨-, -, hturn, hwork⟩ := hs
  generalize hs' : S'.world = s' at hturn hwork
  cases hturn with
  | requested r =>
    obtain ⟨job', hj', hrow⟩ := (handle_requested S.world r).rows j job hj
    exact ⟨job', hj', .requested hrow⟩
  | idle _ h _ => exact ⟨job, by rw [h.jobs, hj], .kept⟩
  | recovered w =>
    refine ⟨_, by rw [recoverInterruptedJobs_get, hj, Option.map_some], ?_⟩
    split_ifs with hr
    · exact .interrupted hr
    · exact .kept
  | swept w => exact ⟨job, hj, .kept⟩
  | claimed w i h =>
    by_cases hij : j = i
    · subst hij
      obtain ⟨job₁, w', path, hj₁, hpending, hj', -⟩ := h.row
      obtain rfl : job = job₁ := by simpa [hj] using hj₁
      exact ⟨_, hj', .claimed w' path hpending⟩
    · exact ⟨job, by rw [h.others j hij, hj], .kept⟩
  | working w i e h _ =>
    obtain ⟨cfg, p, tr, -, hprog⟩ := hwork w e rfl
    cases hprog with
    | before _ _ he =>
      rcases he with rfl | rfl | ⟨r, rfl⟩
      · rcases h with hbusy | ⟨he, -⟩
        · exact ⟨job, by rw [(Busy.sameJobs hbusy rfl).jobs, hj], .kept⟩
        · cases he
      · rcases h with hbusy | ⟨he, -⟩
        · exact (Effect.about hbusy).elim
        · cases he
      · rcases h with ⟨-, rfl⟩ | ⟨he, -⟩
        · exact ⟨job, hj, .kept⟩
        · cases he
    | claims k _ _ he _ =>
      subst he
      rcases h with hbusy | ⟨he, -⟩
      · exact (Effect.about hbusy).elim
      · cases he
    | within k kind _ hk hG hworked =>
      by_cases hjk : j = k
      · subst hjk
        obtain ⟨job₁, hj₁, -, rfl⟩ := hk
        obtain rfl : job = job₁ := by simpa [hj] using hj₁
        obtain ⟨job', hj', -⟩ := hworked.kind hj
        exact ⟨job', hj', .worked w tr e rfl (hs' ▸ hG) (hs' ▸ hworked)⟩
      · rcases hworked with hbusy | ⟨-, rfl⟩
        · rcases hbusy.cases with hp | ⟨found, new, -, hend⟩
          · exact ⟨job, by rw [hp.others j hjk, hj], .kept⟩
          · exact ⟨job, hend.others j job hjk hj, .kept⟩
        · exact ⟨job, hj, .kept⟩

/-- The jobs of a history are there, with the kinds they had. -/
theorem Run.kinds (hrun : Run allowed s₀ h S) {o : Occurrence} {s : World} (ho : (o, s) ∈ h)
    {j : JobId} {job : Job} (hj : s.jobs.get j = some job) :
    ∃ job', S.world.jobs.get j = some job' ∧ job'.kind = job.kind := by
  refine (hrun.induct (M := fun h S => ∀ o s, (o, s) ∈ h → ∀ j job, s.jobs.get j = some job →
    ∃ job', S.world.jobs.get j = some job' ∧ job'.kind = job.kind) Contract.none_holds
    (by simp) ?_).2 o s ho j job hj
  intro h S o' S' _ hs _ ih o s ho j job hj
  rcases List.mem_append.mp ho with ho | ho
  · obtain ⟨job', hj', hkind⟩ := ih o s ho j job hj
    obtain ⟨job'', hj'', hmoved⟩ := hs.turn.moved hj'
    exact ⟨job'', hj'', hmoved.kind.trans hkind⟩
  · obtain ⟨-, rfl⟩ : o = o' ∧ s = S'.world := by simpa using ho
    exact ⟨job, hj, rfl⟩

end System

end PalworldManager
