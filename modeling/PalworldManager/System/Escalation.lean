/-
# The escalation of a shutdown

A forced shutdown names the job whose failure it follows
(`shutdown/jobs.py`, `enqueue_forced_shutdown`): `SIGTERM` a stop or an assisted
shutdown that failed, `SIGKILL` a `SIGTERM` that failed.  `World.Escalated` says so
of every forced shutdown there is.  It stays true because a job of the chain that
has ended is never written again, and because no write takes the name of the source
from a forced shutdown; both are guarantees of the rounds of these jobs (`Escalates`),
and so is that a signal is that of the job's kind.
-/

import PalworldManager.System.Rows

namespace PalworldManager

open Effects Text
open Effects.Exec hiding bind ask

/-- The failure that a signal may follow. -/
def Job.Precedes (failed : Job) : PalworldSignal → Prop
  | .term => failed.status = .failed ∧ (failed.kind = .lifecycle .stop ∨
      failed.kind = .shutdown .assisted ∧ failed.data.value "failure" = .str "stop_failed")
  | .kill => failed.status = .failed ∧ failed.kind = .shutdown .forceTerm

/-- Every forced shutdown names a job whose failure it may follow. -/
def World.Escalated (s : World) : Prop :=
  ∀ j job signal, s.jobs.get j = some job → job.kind = PalworldSignal.jobKind signal →
    ∃ (source : JobId) (failed : Job), job.data.value "source_job_id" = .int source ∧
      s.jobs.get source = some failed ∧ failed.Precedes signal

/-- The kinds of the chain: the failures of the others precede no signal. -/
def JobKind.inChain : JobKind → Bool
  | .lifecycle _ | .shutdown _ => true
  | _ => false

/-- Job `j` of a kind has not ended: it is running, or was interrupted meanwhile. -/
def Unended (j : JobId) (kind : JobKind) (s : World) : Prop :=
  ∃ job, s.jobs.get j = some job ∧ job.kind = kind ∧
    (job.status = .running ∨ job.status = .interrupted)

/-- What a round of job `j` guarantees in each of its steps. -/
structure Escalates (j : JobId) (kind : JobKind) (s : World) (e : Ev) (s' : World) : Prop where
  ended : kind.inChain = true → s'.jobs = s.jobs ∨ Unended j kind s
  signal : ∀ signal r, e = .ask (j, .sendSignal signal) r →
    kind = signal.jobKind ∧ Unended j kind s
  source : ∀ signal, kind = PalworldSignal.jobKind signal → ∀ job, s.jobs.get j = some job →
    ∃ job', s'.jobs.get j = some job' ∧
      job'.data.value "source_job_id" = job.data.value "source_job_id"

section Jobs

variable {j : JobId} {kind : JobKind} {s s' : World} {e : Ev} {tr : List Ev} {failed job job' : Job}
  {signal : PalworldSignal}

/-- What the check of a forced shutdown's source accepts. -/
theorem validForcedSource_iff :
    validForcedSource signal failed = true ↔ failed.Precedes signal := by
  cases signal <;> simp [validForcedSource, Job.Precedes]

/-- What precedes a signal has failed. -/
theorem Job.Precedes.status_eq (h : failed.Precedes signal) : failed.status = .failed := by
  cases signal <;> exact h.1

/-- And it is of a kind of the chain. -/
theorem Job.Precedes.inChain (h : failed.Precedes signal) : failed.kind.inChain = true := by
  cases signal with
  | term =>
    obtain ⟨-, hkind | ⟨hkind, -⟩⟩ := h
    · rw [hkind]
      rfl
    · rw [hkind]
      rfl
  | kill =>
    rw [h.2]
    rfl

/-- Whether a failure may precede a signal depends on its kind, status and result. -/
theorem Job.Precedes.congr (h : job.Precedes signal) (hkind : job'.kind = job.kind)
    (hstatus : job'.status = job.status) (hdata : job'.data = job.data) :
    job'.Precedes signal := by
  cases signal with
  | term => rwa [Job.Precedes, hkind, hstatus, hdata]
  | kill => rwa [Job.Precedes, hkind, hstatus]

/-- The other parties end no job that is running. -/
theorem Unended.others (h : Unended j kind s) (ho : Others j s s') : Unended j kind s' := by
  obtain ⟨job, hj, hkind, hs⟩ := h
  have hnot : job.status ≠ .pending := by
    rintro hp
    simp [hp] at hs
  obtain ⟨job', hj', ht⟩ := ho job hj hnot
  refine ⟨job', hj', ht.kind.trans hkind, ?_⟩
  rcases ht.status with ⟨h', -⟩ | ⟨-, h'⟩
  · rwa [h']
  · exact .inr h'

/-- Only the end of a job ends it. -/
theorem Unended.busy (h : Unended j kind s) (hb : Busy j s e s') (hf : stepClass e ≠ .finish) :
    Unended j kind s' := by
  obtain ⟨job, hj, hkind, hs⟩ := h
  obtain ⟨job', hj', hrow, hs'⟩ := (hb.progress hf).row job hj
  exact ⟨job', hj', hrow.kind.trans hkind, hs' ▸ hs⟩

/-- A step that leaves the jobs as they are and sends no signal. -/
theorem escalates_of_same (hjobs : s'.jobs = s.jobs) (hsignal : stepClass e ≠ .signal) :
    Escalates j kind s e s' where
  ended _ := .inl hjobs
  signal _ _ he := absurd (by rw [he]; rfl) hsignal
  source _ _ job hj := ⟨job, by rw [hjobs, hj], rfl⟩

/-- The calls and reads of a round. -/
def Calls (c : StepClass) : Prop := c = .routine ∨ c = .call

/-- Calls and reads leave the jobs as they are. -/
theorem Acts.jobs (h : Acts Calls j s e s') : s'.jobs = s.jobs := by
  cases e with
  | ask a r => rw [h.1.2]
  | tx l =>
    rcases h.2 with hr | hc
    · exact (Busy.sameJobs h.1 hr).jobs
    · cases l with
      | removed _ site _ => cases site <;> cases hc
      | guard _ c _ => cases c <;> cases hc
      | checkpoint _ c _ => cases c <;> cases hc
      | _ => cases hc

/-- What a step of a job that has not ended does, if it does not end it. -/
def Calm (j : JobId) (kind : JobKind) (s : World) (e : Ev) (s' : World) : Prop :=
  Unended j kind s → Unended j kind s' ∧ Escalates j kind s e s'

/-- Calls and reads are calm. -/
theorem calm_of_calls (h : Acts Calls j s e s') : Calm j kind s e s' := by
  intro hu
  have hjobs := h.jobs
  have hsignal : stepClass e ≠ .signal := by
    rcases h.2 with hr | hc
    · simp [hr]
    · simp [hc]
  exact ⟨by rwa [Unended, hjobs], escalates_of_same hjobs hsignal⟩

/-- The classes of steps that neither send a signal nor end the job. -/
def Unending (c : StepClass) : Prop := c ≠ .signal ∧ c ≠ .finish

/-- Of a job that sends no signal, every step is calm that does not end it. -/
theorem calm_of_unending (hkind : ∀ signal, kind ≠ PalworldSignal.jobKind signal)
    (h : Acts Unending j s e s') : Calm j kind s e s' := by
  intro hu
  refine ⟨hu.busy h.1 h.2.2, fun _ => .inr hu, fun _ _ he => ?_,
    fun signal hk => absurd hk (hkind signal)⟩
  exact absurd (by rw [he]; rfl) h.2.1

end Jobs

section Rounds

variable {L α β : Type} {j : JobId} {kind : JobKind} {s : World} {tr : List Ev} {ℓ : L}

/-- The guarantee as one of the steps of a body. -/
abbrev EscalatesStep (j : JobId) (kind : JobKind) (s : World) (_ : List Ev) (e : Ev) (s' : World) :
    Prop := Escalates j kind s e s'

/-- A statement that does not end the job. -/
theorem wp_calm {x : Py L α} (hx : Keeps (Calm j kind) anyLocals x) (h : Unended j kind s) :
    wp (Others j) (EscalatesStep j kind) x (fun _ _ s _ => Unended j kind s)
      (fun _ _ s _ => Unended j kind s) ℓ s tr :=
  wp_mono (wp_keeps (I := fun s _ => Unended j kind s) hx (fun _ _ _ ho h => h.others ho)
    (fun _ _ _ _ h hc => hc h) h) (fun _ _ _ _ h => h.2) fun _ _ _ _ h => h.2

/-- A statement that does not end the job, and what follows it. -/
theorem wp_calm_bind {x : Py L α} {f : α → Py L β} {Q : β → L → World → List Ev → Prop}
    (hx : Keeps (Calm j kind) anyLocals x) (h : Unended j kind s)
    (hf : ∀ a ℓ s tr, Unended j kind s → wp (Others j) (EscalatesStep j kind) (f a) Q
      (fun _ _ s _ => Unended j kind s) ℓ s tr) :
    wp (Others j) (EscalatesStep j kind) (x >>= f) Q (fun _ _ s _ => Unended j kind s) ℓ s tr :=
  wp_keeps_bind (I := fun s _ => Unended j kind s) hx (fun _ _ _ ho h => h.others ho)
    (fun _ _ _ _ h hc => hc h) h (fun _ _ _ _ _ h => h) fun a ℓ s tr _ h => hf a ℓ s tr h

/-- The completion of a job that has not ended. -/
theorem wp_finishJob_unended {write : Job → Job} {E : Exn → L → World → List Ev → Prop}
    (hwrite : ∀ signal, kind = PalworldSignal.jobKind signal → ∀ job,
      (write job).data.value "source_job_id" = job.data.value "source_job_id")
    (h : Unended j kind s) :
    wp (Others j) (EscalatesStep j kind) (finishJob j write : Py L Unit) (fun _ _ _ _ => True) E
      ℓ s tr := by
  rw [wp_finishJob]
  intro s₁ ho
  have hu := h.others ho
  refine ⟨fun job hj => ⟨⟨fun _ => .inr hu, nofun, fun signal hk job' hj' => ?_⟩, trivial⟩,
    fun hnone => ?_⟩
  · obtain rfl : job = job' := by simpa [hj] using hj'
    exact ⟨write job, by simp [hj], hwrite signal hk job⟩
  · obtain ⟨job, hj, -⟩ := hu
    simp [hj] at hnone

/-- What comes after the end of a job. -/
theorem wp_ended {x : Py L α} (hx : Keeps (Acts (· = .routine) j) anyLocals x) :
    wp (Others j) (EscalatesStep j kind) x (fun _ _ _ _ => True) (fun _ _ _ _ => True) ℓ s tr :=
  wp_mono (wp_keeps (I := fun _ _ => True) hx (fun _ _ _ _ h => h)
    (fun _ _ _ _ _ ha => ⟨trivial, escalates_of_same (Busy.sameJobs ha.1 ha.2).jobs
      (by rw [ha.2]; simp)⟩) trivial) (fun _ _ _ _ _ => trivial) fun _ _ _ _ _ => trivial

/-- A query is calm. -/
theorem keeps_calm_query (f : World → Except Exn α) :
    Keeps (Calm j kind) anyLocals (query f : Py L α) :=
  (keeps_query (.inl rfl) f).mono fun _ _ _ => calm_of_calls

/-- So is every call but a signal. -/
theorem keeps_calm_ask {c : Call} (hc : c ≠ .sendSignal .term) (hc' : c ≠ .sendSignal .kill) :
    Keeps (Calm j kind) anyLocals (ask j c : Py L (Reply c)) := by
  refine Exec.keeps_ask _ fun r s hu => ⟨hu, fun _ => .inl rfl, fun signal r he => ?_,
    fun _ _ job hj => ⟨job, hj, rfl⟩⟩
  cases he
  cases signal <;> contradiction

/-- The signal of a forced shutdown is that of its kind. -/
theorem wp_forcedShutdown {signal : PalworldSignal} (timeout : ℕ)
    (h : Unended j signal.jobKind s) :
    wp (Others j) (EscalatesStep j signal.jobKind) (forcedShutdown j signal timeout : Py L _)
      (fun _ _ s _ => Unended j signal.jobKind s) (fun _ _ s _ => Unended j signal.jobKind s) ℓ s tr := by
  have hrest (sent : Bool) : Keeps (Calm j signal.jobKind) anyLocals
      (if sent = true then do
        let now : ℕ ← ask j .now
        let bound : ℕ ← ask j .bound
        awaitOffline j (now + timeout) bound
      else
        pure
          { outcome := .failed
            onlinePlayers := none
            timedOut := false
            finalState := some .failure
            failure := some "signal_failed" } : Py L AssistedShutdownResult) := by
    refine keeps_ite (fun _ => ?_) fun _ => keeps_pure _
    have hacts : Keeps (Acts Calls j) anyLocals (do
        let now : ℕ ← ask j .now
        let bound : ℕ ← ask j .bound
        awaitOffline j (now + timeout) bound : Py L _) :=
      keeps_bind (keeps_ask _ (.inr rfl)) fun now => keeps_bind (keeps_ask _ (.inl rfl)) fun bound =>
        keeps_awaitOffline (.inl rfl) (.inr rfl) _ _
    exact hacts.mono fun _ _ _ => calm_of_calls
  rw [forcedShutdown, wp_bind, wp_tryCatch, wp_bind, wp_call]
  intro s₁ ho r
  have hu := h.others ho
  refine ⟨⟨fun _ => .inl rfl, fun signal' r' he => ?_, fun _ _ job hj => ⟨job, hj, rfl⟩⟩, ?_⟩
  · cases he
    exact ⟨rfl, hu⟩
  · rw [wp_bind, wp_ofReply]
    refine ⟨fun _ _ => (wp_pure _).mpr (wp_calm (hrest true) hu), fun f _ => ?_⟩
    rw [wp_ite]
    exact ⟨fun _ => (wp_pure _).mpr (wp_calm (hrest false) hu), fun _ => (wp_raise _).mpr hu⟩

/-- The completion of a shutdown. -/
theorem wp_completeShutdownJob (result : AssistedShutdownResult)
    {E : Exn → L → World → List Ev → Prop} (h : Unended j kind s) :
    wp (Others j) (EscalatesStep j kind) (completeShutdownJob j result : Py L Unit)
      (fun _ _ _ _ => True) E ℓ s tr := by
  refine wp_finishJob_unended (fun _ _ job => ?_) h
  exact Dict.value_append (by simp)

/-- A shutdown that is ended by its result. -/
theorem wp_shutdown {x : Py L AssistedShutdownResult}
    (hx : ∀ ℓ s tr, Unended j kind s → wp (Others j) (EscalatesStep j kind) x
      (fun _ _ s _ => Unended j kind s) (fun _ _ s _ => Unended j kind s) ℓ s tr)
    (h : Unended j kind s) :
    wp (Others j) (EscalatesStep j kind) (x >>= fun result => completeShutdownJob j result)
      (fun _ _ _ _ => True) (fun _ _ s _ => Unended j kind s) ℓ s tr := by
  rw [wp_bind]
  exact wp_mono (hx ℓ s tr h) (fun _ _ _ _ h => wp_completeShutdownJob _ h) fun _ _ _ _ h => h

/-- A forced shutdown reads the signal of its kind. -/
theorem forcedRequest_signal {job : Job} {signal signal' : PalworldSignal} {timeout : ℤ}
    (hj : s.jobs.get j = some job) (hkind : job.kind = signal.jobKind)
    (h : forcedRequest j s = .ok (signal', timeout)) : signal' = signal := by
  obtain ⟨job', hget, h⟩ := except_bind_eq_ok.mp h
  obtain rfl : job = job' := by simpa [hj] using getOne_eq_ok hget
  rw [hkind] at h
  cases signal with
  | term =>
    obtain ⟨timeout', -, h⟩ := except_bind_eq_ok.mp h
    obtain ⟨rfl, -⟩ : _ = signal' ∧ timeout' = timeout := by simpa [Pure.pure, Except.pure] using h
    rfl
  | kill =>
    obtain ⟨timeout', -, h⟩ := except_bind_eq_ok.mp h
    obtain ⟨rfl, -⟩ : _ = signal' ∧ timeout' = timeout := by simpa [Pure.pure, Except.pure] using h
    rfl

/-- **The executors of the chain** end their job by their last statement. -/
theorem wp_executor_inChain [Unicode] (cfg : WorkerConfig) (hkind : kind.inChain = true)
    (h : Unended j kind s) :
    wp (Others j) (EscalatesStep j kind) (executor cfg j kind : Py L Unit)
      (fun _ _ _ _ => True) (fun _ _ s _ => Unended j kind s) ℓ s tr := by
  have hforced (signal : PalworldSignal) (hk : kind = signal.jobKind) :
      wp (Others j) (EscalatesStep j kind) (executeForcedShutdownJob j : Py L Unit)
        (fun _ _ _ _ => True) (fun _ _ s _ => Unended j kind s) ℓ s tr := by
    subst hk
    rw [executeForcedShutdownJob, wp_bind, wp_query]
    intro s₁ ho
    have hu := h.others ho
    refine ⟨escalates_of_same rfl (by simp [stepClass, Label.cls]), ?_, fun _ _ => hu⟩
    rintro ⟨signal', timeout⟩ hrequest
    obtain ⟨job, hj, hkind', -⟩ := hu
    obtain rfl : signal' = signal := forcedRequest_signal hj hkind' hrequest
    exact wp_shutdown (fun _ _ _ h => wp_forcedShutdown _ h) (h.others ho)
  cases kind with
  | lifecycle action =>
    rw [executor, executeLifecycleJob]
    refine wp_calm_bind (keeps_calm_query _) h fun p ℓ s tr h => ?_
    obtain ⟨action', timeout⟩ := p
    refine wp_calm_bind (keeps_calm_ask (by simp) (by simp)) h fun r ℓ s tr h => ?_
    refine wp_calm_bind (keeps_ofReply _) h fun result ℓ s tr h => ?_
    exact wp_finishJob_unended (fun signal hk => by cases signal <;> cases hk) h
  | shutdown kind =>
    cases kind with
    | assisted =>
      rw [executor, executeAssistedShutdownJob]
      refine wp_calm_bind (keeps_calm_query _) h fun p ℓ s tr h => ?_
      obtain ⟨minutes, timeout⟩ := p
      refine wp_shutdown (fun ℓ s tr h => wp_calm ?_ h) h
      have hacts : Keeps (Acts Unending j) anyLocals
          (assistedShutdown j minutes timeout (databaseCountdownControl j) : Py L _) :=
        keeps_assistedShutdown (by simp [Unending]) (by simp [Unending]) _ _
          (fun _ _ => keeps_countdownUpdate (by simp [Unending]) (by simp [Unending]) _ _ _ _ _)
          (keeps_markIrreversible (by simp [Unending]) (by simp [Unending]) _ _)
      exact hacts.mono fun _ _ _ => calm_of_unending fun signal hk => by cases signal <;> cases hk
    | forceTerm => exact hforced .term rfl
    | forceKill => exact hforced .kill rfl
  | _ => cases hkind

/-- The worker's fallback for the jobs of the chain. -/
theorem wp_fallback_inChain (hkind : kind.inChain = true) {E : Exn → L → World → List Ev → Prop}
    (h : Unended j kind s) :
    wp (Others j) (EscalatesStep j kind) (fallback j kind : Py L Unit) (fun _ _ _ _ => True) E
      ℓ s tr := by
  cases kind with
  | lifecycle action =>
    exact wp_finishJob_unended (fun signal hk => by cases signal <;> cases hk) h
  | shutdown kind => exact wp_completeShutdownJob _ h
  | _ => cases hkind

/-- A round of a job of the chain, from its claim on. -/
theorem wp_runClaimed_inChain [Unicode] (cfg : WorkerConfig) (hkind : kind.inChain = true)
    (h : Unended j kind s) :
    wp (Others j) (EscalatesStep j kind) (runClaimed cfg j kind : Py L Unit)
      (fun _ _ _ _ => True) (fun _ _ _ _ => True) ℓ s tr := by
  have hlog (message : String) : Keeps (Calm j kind) anyLocals (appendLog j message : Py L Unit) :=
    (keeps_appendLog (.inl rfl) message).mono fun _ _ _ => calm_of_calls
  have hopen : Keeps (Calm j kind) anyLocals (openLog j kind : Py L Unit) :=
    (keeps_openLog (.inl rfl) kind).mono fun _ _ _ => calm_of_calls
  rw [runClaimed, wp_bind, wp_tryCatch, wp_bind, runExecutor]
  refine wp_mono (wp_calm_bind hopen h fun _ ℓ s tr h => wp_executor_inChain cfg hkind h)
    (fun _ ℓ s tr _ => ?_) fun e ℓ s tr h => ?_
  · rw [wp_pure, if_pos rfl]
    exact wp_ended (keeps_closeLog rfl)
  · rw [wp_bind]
    refine wp_mono (wp_calm (hlog _) h) (fun _ ℓ s tr h => ?_) fun _ _ _ _ _ => trivial
    rw [wp_bind]
    refine wp_mono (wp_fallback_inChain hkind (E := fun _ _ _ _ => True) h)
      (fun _ ℓ s tr _ => ?_) fun _ _ _ _ _ => trivial
    rw [wp_pure, if_neg Bool.false_ne_true]
    exact (wp_pure _).mpr trivial

/-- **Every round keeps to the chain.** -/
theorem wp_processClaimed_escalates [Unicode] (cfg : WorkerConfig) (h : Unended j kind s) :
    wp (Others j) (EscalatesStep j kind) (processClaimed cfg j kind : Py L Unit)
      (fun _ _ _ _ => True) (fun _ _ _ _ => True) ℓ s tr := by
  have hrelease {ℓ : L} {s : World} {tr : List Ev} : wp (Others j) (EscalatesStep j kind)
      (releaseLock j : Py L Unit) (fun _ _ _ _ => True) (fun _ _ _ _ => True) ℓ s tr := by
    rw [releaseLock, wp_session]
    refine fun s₁ _ => ⟨fun _ s' hs => ⟨escalates_of_same ?_ (by simp [stepClass, Label.cls]),
      trivial⟩, nofun⟩
    obtain rfl : releaseMaintenanceLock j s₁ = s' := by simpa using hs
    rfl
  rw [processClaimed, wp_ensuring]
  by_cases hkind : kind.inChain = true
  · exact wp_mono (wp_runClaimed_inChain cfg hkind h) (fun _ _ _ _ _ => hrelease)
      fun _ _ _ _ _ => hrelease
  · have hforced : ∀ signal, kind ≠ PalworldSignal.jobKind signal := by
      rintro signal rfl
      cases signal <;> exact hkind rfl
    have hkeeps : Keeps (Acts kind.allows j) anyLocals (runClaimed cfg j kind : Py L Unit) :=
      keeps_runClaimed cfg kind
    refine wp_mono (wp_keeps (I := fun _ _ => True) hkeeps
      (fun _ _ _ _ h => h) (fun _ _ e _ _ ha => ⟨trivial, fun hk => absurd hk hkind, ?_,
        fun signal hk => absurd hk (hforced signal)⟩) trivial) (fun _ _ _ _ _ => hrelease)
      fun _ _ _ _ _ => hrelease
    rintro signal r rfl
    rcases ha.2 rfl with hk | hk
    · exact absurd hk (hforced .term)
    · exact absurd hk (hforced .kill)

end Rounds

/-- The contract of the chain. -/
def escalating : Contract where
  guarantee j kind s _ e s' := Escalates j kind s e s'
  post _ _ _ _ _ := True

/-- The contract holds from the claim of any job on. -/
theorem escalating_holds [Unicode] : escalating.Holds where
  stable _ _ _ _ _ _ _ _ := trivial
  safe cfg j kind s log h := by
    obtain ⟨job, hj, hkind, hr, -⟩ := h.row
    have hround : wp (Others j) (EscalatesStep j kind)
        (processClaimed cfg j kind >>= fun _ => pure true : Py Unit Bool) (fun _ _ _ _ => True)
        (fun _ _ _ _ => True) () s (claimTrace log j) := by
      rw [wp_bind]
      exact wp_mono (wp_processClaimed_escalates cfg ⟨job, hj, hkind, .inl hr⟩)
        (fun _ _ _ _ h => (wp_pure _).mpr h) fun _ _ _ _ h => h
    exact Prog.Safe.mono (safe_of_wp hround) fun _ _ _ _ => trivial

/-- A forced shutdown is inserted with the job whose failure it follows. -/
theorem WebRequest.Inserts.source {s : World} {job : Job} {r : WebRequest}
    {signal : PalworldSignal} (h : r.Inserts s job) (hkind : job.kind = signal.jobKind) :
    ∃ (source : JobId) (failed : Job), job.data.value "source_job_id" = .int source ∧
      s.jobs.get source = some failed ∧ failed.Precedes signal := by
  have hother {kind : JobKind} (hk : job.kind = kind)
      (hne : ∀ signal, PalworldSignal.jobKind signal ≠ kind) {p : Prop} : p :=
    absurd (hkind.symm.trans hk) (hne signal)
  cases r with
  | forcedShutdown source signal' user =>
    obtain ⟨hk, -, -, hdata, failed, hget, hvalid⟩ := h
    obtain rfl : signal = signal' := by
      rw [hkind] at hk
      cases signal <;> cases signal' <;> first | rfl | cases hk
    exact ⟨source, failed, hdata, hget, validForcedSource_iff.mp hvalid⟩
  | lifecycle | assistedShutdown | updateCheck | update =>
    exact hother h.1 fun signal => by cases signal <;> exact nofun
  | localBackup | restore | driveCheck | hostPower =>
    exact hother h fun signal => by cases signal <;> exact nofun
  | driveUpload | driveDownload | driveDelete =>
    exact hother h.1 fun signal => by cases signal <;> exact nofun
  | backupCancel | driveCancel | shutdownCancel | updateCancel | shutdownNow | settings =>
    exact h.elim

namespace System

/-- Worker `w` executes job `j`. -/
def Executes (S : System) (w : WorkerId) (j : JobId) : Prop :=
  ∃ cfg p tr, S.process w = some (.running cfg p tr) ∧ claimedIn tr = some j

section Runs

variable [Unicode] {allowed : Policy} {s₀ : World} {h : History} {S S' : System} {o : Occurrence}
  {j : JobId} {job failed : Job} {signal : PalworldSignal}

/-- **A failure that may precede a signal stays as it is.** -/
theorem Stepped.precedes (hs : Stepped escalating S o S') (hj : S.world.jobs.get j = some failed)
    (h : failed.Precedes signal) :
    ∃ failed', S'.world.jobs.get j = some failed' ∧ failed'.Precedes signal := by
  obtain ⟨failed', hj', hrow⟩ := hs.row hj
  refine ⟨failed', hj', ?_⟩
  have hstatus := h.status_eq
  cases hrow with
  | kept => exact h
  | requested hreq =>
    cases hreq with
    | same => exact h
    | stopNow => exact h.congr rfl rfl rfl
    | cancel haccepts => simp [Job.acceptsCancel, hstatus, JobStatus.isActive] at haccepts
    | cancelPending _ haccepts => simp [Job.acceptsCancel, hstatus, JobStatus.isActive] at haccepts
  | interrupted hr => simp [hstatus] at hr
  | claimed _ _ hp => simp [hstatus] at hp
  | worked w tr e _ hG _ =>
    rcases hG.ended h.inChain with hjobs | ⟨job, hget, -, hrunning⟩
    · obtain rfl : failed = failed' := by simpa [hjobs, hj] using hj'
      exact h
    · obtain rfl : failed = job := by simpa [hj] using hget
      simp [hstatus] at hrunning

/-- **A forced shutdown keeps the name of its source.** -/
theorem Stepped.source (hs : Stepped escalating S o S') (hj : S.world.jobs.get j = some job)
    (hkind : job.kind = signal.jobKind) :
    ∃ job', S'.world.jobs.get j = some job' ∧
      job'.data.value "source_job_id" = job.data.value "source_job_id" := by
  obtain ⟨job', hj', hrow⟩ := hs.row hj
  cases hrow with
  | kept => exact ⟨job, hj', rfl⟩
  | requested hreq =>
    refine ⟨job', hj', ?_⟩
    cases hreq with
    | same | stopNow | cancel => rfl
    | cancelPending result _ _ hkeeps => exact hkeeps "source_job_id" (by decide)
  | interrupted => exact ⟨_, hj', Dict.value_append (by simp)⟩
  | claimed => exact ⟨_, hj', rfl⟩
  | worked w tr e _ hG _ => exact hG.source signal hkind job hj

/-- **The step lemma.** -/
theorem Stepped.escalated (hs : Stepped escalating S o S') (h : S.world.Escalated) :
    S'.world.Escalated := by
  intro j job' signal hj' hkind
  cases hj : S.world.jobs.get j with
  | none =>
    rcases (hs.turn.inserted hj hj').2 with ⟨r, -, hr⟩ | hk
    · obtain ⟨source, failed, hdata, hfailed, hprecedes⟩ := hr.source hkind
      obtain ⟨failed', hget, hprecedes'⟩ := hs.precedes hfailed hprecedes
      exact ⟨source, failed', hdata, hget, hprecedes'⟩
    · rw [hk] at hkind
      cases signal <;> cases hkind
  | some job =>
    obtain ⟨job₁, hj₁, hmoved⟩ := hs.turn.moved hj
    obtain rfl : job' = job₁ := by simpa [hj'] using hj₁
    have hkind₀ : job.kind = signal.jobKind := hmoved.kind ▸ hkind
    obtain ⟨source, failed, hdata, hfailed, hprecedes⟩ := h j job signal hj hkind₀
    obtain ⟨failed', hget, hprecedes'⟩ := hs.precedes hfailed hprecedes
    obtain ⟨job₂, hj₂, hkept⟩ := hs.source hj hkind₀
    obtain rfl : job' = job₂ := by simpa [hj'] using hj₂
    exact ⟨source, failed', hkept.trans hdata, hget, hprecedes'⟩

/-- **A signal is that of the job that is executed**, which has not ended. -/
theorem Inv.signals (hI : Inv escalating S) {w : WorkerId} {r : Reply (.sendSignal signal)}
    (hs : Step S (.work w (.ask (j, .sendSignal signal) r)) S') :
    S.Executes w j ∧ ∃ job, S.world.jobs.get j = some job ∧ job.kind = signal.jobKind ∧
      (job.status = .running ∨ job.status = .interrupted) := by
  obtain ⟨-, -, hwork⟩ := hI.step escalating_holds hs
  obtain ⟨cfg, p, tr, hw, hprog⟩ := hwork w _ rfl
  cases hprog with
  | before _ _ he => simp at he
  | claims _ _ _ he _ => cases he
  | within i kind hi hrow hG hworked =>
    obtain rfl : j = i := by
      rcases hworked with hbusy | ⟨he, -⟩
      · exact hbusy.1
      · cases he
    obtain ⟨hkind, job, hj, hk, hstatus⟩ := hG.signal signal r rfl
    exact ⟨⟨cfg, p, tr, hw, hi⟩, job, hj, hk.trans hkind, hstatus⟩

/-- **The escalation chain**, in every reachable state of however many workers, and in
the next step from there. -/
theorem Run.escalation (hrun : Run allowed s₀ h S) :
    S.world.Escalated ∧ ∀ w j signal r S', Step S (.work w (.ask (j, .sendSignal signal) r)) S' →
      S.Executes w j ∧ ∃ job, S.world.jobs.get j = some job ∧ job.kind = signal.jobKind ∧
        (job.status = .running ∨ job.status = .interrupted) := by
  obtain ⟨hI, hescalated⟩ := hrun.induct (M := fun _ S => S.world.Escalated) escalating_holds
    (fun hs j job signal hj => by simp [hs.jobs] at hj) fun _ _ _ _ _ hs _ ih => hs.escalated ih
  exact ⟨hescalated, fun w j signal r S' hs => hI.signals hs⟩

end Runs

/-- A stop that does not succeed. -/
def stopFails : Oracle
  | (_, .lifecycle .stop _) => some (.ok ⟨false, .online, true⟩)
  | a => smooth a

/-- A stop fails, a `SIGTERM` is requested, and a worker sends it. -/
def failedStop : List Command :=
  [.request (.lifecycle .stop 1), .boot (.standard "a:1"), .recover "a:1", .call "a:1"] ++
    List.replicate 9 (.work "a:1" stopFails) ++
    [.ended "a:1", .request (.forcedShutdown 1 .term 1), .call "a:1"] ++
    List.replicate 4 (.work "a:1" stopFails)

/-- The chain of a stop that failed. -/
theorem escalation_failedStop :
    ∃ h S, @Run .ascii anyPolicy World.installed h S ∧ S.world.status 2 = some .running ∧
      S.world.Escalated ∧ ∀ w j signal r S',
        @Step .ascii S (.work w (.ask (j, .sendSignal signal) r)) S' →
          S.Executes w j ∧ ∃ job, S.world.jobs.get j = some job ∧ job.kind = signal.jobKind ∧
            (job.status = .running ∨ job.status = .interrupted) := by
  obtain ⟨h, S, hrun, hstatus⟩ := @exists_run .ascii anyPolicy _ failedStop
    (fun _ S => S.world.status 2 = some .running) _ (by decide +kernel)
  exact ⟨h, S, hrun, hstatus, @Run.escalation .ascii _ _ h S hrun⟩

end System

end PalworldManager
