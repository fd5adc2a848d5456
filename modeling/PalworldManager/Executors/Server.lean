/-
# Every executor is busy with its own job

`Acts` for the jobs that act on the server, for the restore and the update,
and with them for whatever `process_next` runs on behalf of the job it claimed.
-/

import PalworldManager.Executors.Drive

namespace PalworldManager

open Effects Text
open Effects.Exec hiding bind ask

variable {L α β : Type} {A : StepClass → Prop} {j : JobId} {V : L → L → Prop} [IsPreorder L V]

/-- A call of any class whose result a continuation goes on with. -/
theorem keeps_reply_of {c : Call} (hc : A c.cls) {g : Reply c → Py L α} {f : α → Py L β}
    (hg : ∀ r, (g r).Keeps (Acts A j) V) (hf : ∀ a, (f a).Keeps (Acts A j) V) :
    Keeps (Acts A j) V (ask j c >>= fun r => g r >>= f) :=
  keeps_bind (keeps_ask c hc) fun r => keeps_bind (hg r) hf

/-- A call whose answer is unpacked is of its class. -/
theorem keeps_ask_ofReply {c : Call} (hc : A c.cls) {g : Reply c → Except Fault α} :
    Keeps (Acts A j) V (ask j c >>= fun r => ofReply (g r) : Py L α) :=
  keeps_bind (keeps_ask c hc) fun _ => keeps_ofReply _

section Shutdown

/-- An announcement of the countdown is routine. -/
theorem keeps_announceCountdown (hr : A .routine) (minutes : ℕ) :
    Keeps (Acts A j) V (announceCountdown j minutes : Py L _) := by
  refine keeps_tryCatch ?_ fun e => keeps_ite (fun _ => keeps_pure _) fun _ => keeps_raise _
  refine keeps_reply hr rfl (fun _ => keeps_ofReply _) fun players => ?_
  refine keeps_ite (fun _ => ?_) fun _ => keeps_pure _
  exact keeps_reply hr rfl (fun _ => keeps_ofReply _) fun _ => keeps_pure _

/-- So is one whose failure is suppressed. -/
theorem keeps_announceSuppressed (hr : A .routine) (message : String) :
    Keeps (Acts A j) V (announceSuppressed j message : Py L Unit) :=
  keeps_tryCatch (keeps_call hr rfl fun _ => keeps_ofReply _)
    fun _ => keeps_ite (fun _ => keeps_pure _) fun _ => keeps_raise _

/-- The countdown takes the steps of its control. -/
theorem keeps_countdown {control : CountdownControl L} {P : World → Ev → World → Prop} (total : ℕ)
    (hupdate : ∀ r t, (control.update r t).Keeps P V) (n : ℕ) :
    Keeps P V (countdown control total n) := by
  induction n with
  | zero => exact keeps_pure _
  | succ n ih =>
    refine keeps_bind (hupdate _ _) fun directive => ?_
    cases directive with
    | «continue» => exact ih
    | cancel => exact keeps_pure _
    | executeNow => exact keeps_pure _

/-- The server is stopped by one call of its class. -/
theorem keeps_stopServer (hs : A .server) (players : ℕ) (timeout : ℤ) :
    Keeps (Acts A j) V (stopServer j players timeout : Py L _) :=
  keeps_reply_of hs (fun _ => keeps_ofReply _) fun _ => keeps_pure _

/-- The last announcement, after which the server is stopped. -/
theorem keeps_announceAndStop (hr : A .routine) (hs : A .server) (players : ℕ) (timeout : ℤ) :
    Keeps (Acts A j) V (announceAndStop j players timeout : Py L _) := by
  refine keeps_bind (keeps_tryCatch ?_ fun e =>
    keeps_ite (fun _ => keeps_pure _) fun _ => keeps_raise _) fun announced => ?_
  · refine keeps_ite (fun _ => ?_) fun _ => keeps_pure _
    exact keeps_reply hr rfl (fun _ => keeps_ofReply _) fun _ => keeps_pure _
  · exact keeps_ite (fun _ => keeps_stopServer hs _ _) fun _ => keeps_pure _

/-- At the end the server is stopped, or the countdown cancelled. -/
theorem keeps_endCountdown (hr : A .routine) (hs : A .server)
    {control : CountdownControl L} (players : ℕ) (timeout : ℤ)
    (hmark : control.markIrreversible.Keeps (Acts A j) V) (directive : CountdownDirective) :
    Keeps (Acts A j) V (endCountdown j players timeout control directive) := by
  have hstop : Keeps (Acts A j) V (endCountdown j players timeout control .continue) := by
    refine keeps_bind hmark fun mark => ?_
    cases mark with
    | cancel => exact keeps_pure _
    | _ => exact keeps_announceAndStop hr hs _ _
  cases directive with
  | cancel =>
    refine keeps_ite (fun _ => ?_) fun _ => keeps_pure _
    exact keeps_bind (keeps_announceSuppressed hr _) fun _ => keeps_pure _
  | _ => exact hstop

/-- **An assisted shutdown** takes routine steps, those of its control, and the stop. -/
theorem keeps_assistedShutdown (hr : A .routine) (hs : A .server)
    {control : CountdownControl L} (minutes timeout : ℤ)
    (hupdate : ∀ r t, (control.update r t).Keeps (Acts A j) V)
    (hmark : control.markIrreversible.Keeps (Acts A j) V) :
    Keeps (Acts A j) V (assistedShutdown j minutes timeout control) := by
  refine keeps_bind (keeps_raiseIf _ _) fun _ => ?_
  refine keeps_bind (keeps_announceCountdown hr _) fun players => ?_
  cases players with
  | none => exact keeps_pure _
  | some players =>
    refine keeps_bind (keeps_countdown _ hupdate _) fun directive => ?_
    exact keeps_endCountdown hr hs _ _ hmark _

/-- The loop that waits for the server takes calls. -/
theorem keeps_awaitOffline (hr : A .routine) (hc : A .call) (deadline n : ℕ) :
    Keeps (Acts A j) V (awaitOffline j deadline n : Py L _) := by
  induction n with
  | zero => exact keeps_hang hr
  | succ n ih =>
    refine keeps_reply hr rfl (fun _ => keeps_ofReply _) fun state => ?_
    refine keeps_bind (keeps_ite (fun _ => keeps_ask_ofReply hr) fun _ => keeps_pure _) fun isOpen => ?_
    refine keeps_ite (fun _ => ?_) fun _ => keeps_pure _
    refine keeps_bind (keeps_ask _ hc) fun now => ?_
    exact keeps_ite (fun _ => keeps_pure _) fun _ => ih

/-- **A forced shutdown** sends its signal, and waits. -/
theorem keeps_forcedShutdown (hr : A .routine) (hc : A .call) (hs : A .signal)
    (signal : PalworldSignal) (timeout : ℕ) :
    Keeps (Acts A j) V (forcedShutdown j signal timeout : Py L _) := by
  refine keeps_bind (keeps_tryCatch ?_ fun e =>
    keeps_ite (fun _ => keeps_pure _) fun _ => keeps_raise _) fun sent => ?_
  · exact keeps_reply_of hs (fun _ => keeps_ofReply _) fun _ => keeps_pure _
  · refine keeps_ite (fun _ => ?_) fun _ => keeps_pure _
    refine keeps_bind (keeps_ask _ hc) fun now => keeps_bind (keeps_ask _ hr) fun bound => ?_
    exact keeps_awaitOffline hr hc _ _

/-- The control of the countdown writes progress. -/
theorem keeps_countdownUpdate (hr : A .routine) (hp : A .progress) (base span : ℕ)
    (executeNow : Bool) (remaining total : ℕ) :
    Keeps (Acts A j) V (countdownUpdate j base span executeNow remaining total : Py L _) := by
  refine keeps_session hr fun s a s' h => ⟨?_, hp⟩
  obtain ⟨job, -, h⟩ := except_map_eq_ok.mp h
  obtain ⟨rfl, rfl⟩ : job.directive executeNow = a ∧
      s.modifyJob j (Job.tick base span remaining total) = s' := by simpa using h
  exact effect_modifyJob rfl (by simp [Label.cls]) (by simp [Label.cls]) (fun _ => rfl)
    (fun _ => ⟨⟨rfl, rfl, rfl, rfl, .inl⟩, rfl⟩) fun _ job => preventive_append job _ (by simp)

/-- What `mark_irreversible` does: it finds a cancellation and leaves the row, or
finds none and turns cancellation off. -/
theorem markIrreversible_step {step : String} {n : ℕ} {s s' : World} {d : CountdownDirective}
    (h : ((s.getOne j).map fun job =>
      if !(job.isCancellable && !job.cancelRequested) && job.cancelRequested then
        (CountdownDirective.cancel, s)
      else (.continue, s.modifyJob j (Job.seal step n))) = .ok (d, s')) :
    ∃ job, s.jobs.get j = some job ∧
      (d = .cancel ∧ job.cancelRequested = true ∧ s' = s ∨
        d = .continue ∧ job.cancelRequested = false ∧ s' = s.modifyJob j (Job.seal step n)) := by
  obtain ⟨job, hj, h⟩ := except_map_eq_ok.mp h
  refine ⟨job, getOne_eq_ok hj, ?_⟩
  cases hr : job.cancelRequested <;> simp [hr, eq_comm] at h <;> simp [h]

/-- A mark that finds a cancellation leaves everything. -/
theorem effect_irreversible_cancel (s : World) : Effect j (.irreversible j .cancel) s s where
  about := rfl
  files := rfl
  records _ := rfl
  preventive _ := rfl
  stored := (Shrinks.refl s).stored j
  shrinks _ := .refl s
  same _ := .refl s
  progress _ := (SameJobs.refl s).progress j
  ended _ _ h := nomatch h

/-- **The mark** takes a step of its own class. -/
theorem keeps_markIrreversible (hr : A .routine) (hm : A .mark) (step : String) (n : ℕ) :
    Keeps (Acts A j) V (markIrreversible j step n : Py L _) := by
  refine keeps_session hr fun s d s' h => ⟨?_, hm⟩
  obtain ⟨job, -, ⟨rfl, -, rfl⟩ | ⟨rfl, -, rfl⟩⟩ := markIrreversible_step h
  · exact effect_irreversible_cancel _
  · exact effect_modifyJob rfl (by simp [Label.cls]) (by simp [Label.cls]) (fun _ => rfl)
      (fun _ => ⟨⟨rfl, rfl, rfl, rfl, fun h => nomatch h⟩, rfl⟩)
      fun _ job => preventive_append job _ (by simp)

/-- A shutdown ends its job with an outcome. -/
theorem ShutdownOutcome.status_isOutcome (outcome : ShutdownOutcome) :
    outcome.status.isOutcome = true := by
  cases outcome <;> rfl

/-- A shutdown that is completed ends its job. -/
theorem keeps_completeShutdownJob (hr : A .routine) (hf : A .finish)
    (result : AssistedShutdownResult) :
    Keeps (Acts A j) V (completeShutdownJob j result : Py L Unit) :=
  keeps_finishJob hr hf (fun _ => ⟨rfl, rfl, rfl, rfl, fun h => nomatch h⟩)
    fun _ => result.outcome.status_isOutcome

/-- **The executor of an assisted shutdown.** -/
theorem keeps_executeAssistedShutdownJob :
    Keeps (Acts silent j) V (executeAssistedShutdownJob j : Py L Unit) := by
  refine keeps_bind (keeps_query nofun _) fun ⟨minutes, timeout⟩ => ?_
  refine keeps_bind (keeps_assistedShutdown nofun nofun _ _ (fun r t => ?_)
    (keeps_markIrreversible nofun nofun _ _)) fun result => ?_
  · exact keeps_countdownUpdate nofun nofun _ _ _ _ _
  · exact keeps_completeShutdownJob nofun nofun _

/-- **The executor of a forced shutdown**, the one that may send a signal. -/
theorem keeps_executeForcedShutdownJob :
    Keeps (Acts anyClass j) V (executeForcedShutdownJob j : Py L Unit) := by
  refine keeps_bind (keeps_query trivial _) fun ⟨signal, timeout⟩ => ?_
  refine keeps_bind (keeps_forcedShutdown trivial trivial trivial _ _) fun result => ?_
  exact keeps_completeShutdownJob trivial trivial _

end Shutdown

section Lifecycle

/-- A lifecycle job is ended. -/
theorem keeps_finishLifecycle (timeout : ℤ) (result : LifecycleResult) :
    Keeps (Acts silent j) V (finishJob j (Job.finishLifecycle timeout result) : Py L Unit) := by
  refine keeps_finishJob nofun nofun (fun _ => ⟨rfl, rfl, rfl, rfl, .inl⟩) fun _ => ?_
  cases h : result.succeeded <;> simp [Job.finishLifecycle, h, JobStatus.isOutcome]

/-- **The executor of lifecycle jobs.** -/
theorem keeps_executeLifecycleJob : Keeps (Acts silent j) V (executeLifecycleJob j : Py L Unit) := by
  refine keeps_bind (keeps_query nofun _) fun ⟨action, timeout⟩ => ?_
  have hcall : silent (Call.cls (.lifecycle action timeout)) := by cases action <;> nofun
  exact keeps_reply_of hcall (fun _ => keeps_ofReply _) fun result => keeps_finishLifecycle _ _

/-- Its fallback. -/
theorem keeps_failLifecycleJob (hr : A .routine) (hf : A .finish) :
    Keeps (Acts A j) V (failLifecycleJob j : Py L Unit) :=
  keeps_finishJob hr hf (fun _ => ⟨rfl, rfl, rfl, rfl, .inl⟩) fun _ => rfl

/-- A host power job is ended. -/
theorem keeps_finishHostPower (hr : A .routine) (hf : A .finish) (succeeded : Bool)
    (initial : Option PalworldHealthState)
    (handling : String) (failure : Option String) (requested : Bool) :
    Keeps (Acts A j) V
      (finishJob j (Job.finishHostPower succeeded initial handling failure requested) :
        Py L Unit) := by
  refine keeps_finishJob hr hf (fun _ => ⟨rfl, rfl, rfl, rfl, fun h => nomatch h⟩) fun _ => ?_
  cases succeeded <;> rfl

/-- The host is asked once, after the job's row says so. -/
theorem keeps_requestHostPower (action : HostPowerAction) (initial : PalworldHealthState)
    (handling : String) :
    Keeps (Acts silent j) V (requestHostPower j action initial handling : Py L Unit) := by
  refine keeps_bind (keeps_updateJob nofun nofun
    (fun _ => ⟨⟨rfl, rfl, rfl, rfl, fun h => nomatch h⟩, rfl⟩) fun _ => rfl) fun _ => ?_
  refine keeps_bind (keeps_tryCatch ?_ fun e =>
    keeps_ite (fun _ => keeps_pure _) fun _ => keeps_raise _) fun requested => ?_
  · exact keeps_reply_of nofun (fun _ => keeps_ofReply _) fun _ => keeps_pure _
  · exact keeps_ite (fun _ => keeps_finishHostPower nofun nofun _ _ _ _ _)
      fun _ => keeps_finishHostPower nofun nofun _ _ _ _ _

/-- The session in which a host power job reads its request. -/
theorem keeps_checkPalworld (hr : A .routine) (hp : A .progress) :
    Keeps (Acts A j) V (session
      (fun s => (hostPowerRequest j s).map fun r => (r, s.modifyJob j fun job =>
        { job with step := "CHECKING_PALWORLD", progress := 10 }))
      fun _ => .write j : Py L (HostPowerAction × ℤ)) := by
  refine keeps_session hr fun s a s' h => ⟨?_, hp⟩
  obtain ⟨r, -, h⟩ := except_map_eq_ok.mp h
  obtain ⟨rfl, rfl⟩ : r = a ∧ _ = s' := by simpa using h
  exact effect_modifyJob rfl (by simp [Label.cls]) (by simp [Label.cls]) (fun _ => rfl)
    (fun _ => ⟨⟨rfl, rfl, rfl, rfl, .inl⟩, rfl⟩) fun _ _ => rfl

/-- **The executor of host power jobs.** -/
theorem keeps_executeHostPower : Keeps (Acts silent j) V (executeHostPower j : Py L Unit) := by
  refine keeps_bind (keeps_checkPalworld nofun nofun) fun ⟨action, timeout⟩ => ?_
  refine keeps_reply_of nofun (fun _ => keeps_ofReply _) fun initial => ?_
  refine keeps_ite (fun _ => keeps_requestHostPower _ _ _) fun _ => ?_
  refine keeps_bind (keeps_updateJob nofun nofun (fun _ => ⟨⟨rfl, rfl, rfl, rfl, .inl⟩, rfl⟩)
    fun _ => rfl) fun _ => ?_
  refine keeps_bind (keeps_assistedShutdown nofun nofun _ _ (fun _ _ => keeps_pure _) (keeps_pure _))
    fun result => ?_
  exact keeps_ite (fun _ => keeps_requestHostPower _ _ _) fun _ =>
    keeps_finishHostPower nofun nofun _ _ _ _ _

/-- Its fallback. -/
theorem keeps_failHostPower (hr : A .routine) (hf : A .finish) :
    Keeps (Acts A j) V (failHostPower j : Py L Unit) :=
  keeps_bind (keeps_query hr _) fun _ => keeps_finishHostPower hr hf _ _ _ _ _

end Lifecycle

section Restore

/-- A restore is prepared without a signal, a cleanup or an end. -/
theorem keeps_prepareRestore (hA : ∀ c, c ≠ .signal → c ≠ .cleanup → c ≠ .finish → A c) (driveService : Bool)
    (request : RestoreRequest) (record : BackupRecord) :
    Keeps (Acts A j) V (prepareRestore driveService j request record : Py L Unit) := by
  have hr : A .routine := hA _ nofun nofun nofun
  have hcall : A .call := hA _ nofun nofun nofun
  have hcheckpoint (step : String) (n : ℕ) (d : Bool) :
      Keeps (Acts A j) V (restoreCheckpoint j step n d : Py L Unit) :=
    keeps_restoreCheckpoint hr (hA _ nofun nofun nofun) step n d
  rw [prepareRestore]
  cases request.sourceLocation with
  | drive =>
    refine keeps_bind (keeps_raiseIf _ _) fun _ => keeps_bind (hcheckpoint _ _ _) fun _ => ?_
    refine keeps_bind (keeps_tryCatch (keeps_downloadTemporary hr _ (keeps_pure _))
      fun e => ?_) fun _ => ?_
    · split <;> exact keeps_raise _
    · exact keeps_bind (hcheckpoint _ _ _) fun _ => keeps_ask_ofReply hcall
  | «local» => exact keeps_bind (hcheckpoint _ _ _) fun _ => keeps_ask_ofReply hcall

/-- So is its preventive backup made. -/
theorem keeps_makePreventiveBackup (hA : ∀ c, c ≠ .signal → c ≠ .cleanup → c ≠ .finish → A c)
    (request : RestoreRequest) :
    Keeps (Acts A j) anyLocals (makePreventiveBackup j request) := by
  have hr : A .routine := hA _ nofun nofun nofun
  have hp : A .progress := hA _ nofun nofun nofun
  refine keeps_bind (keeps_restoreCheckpoint hr hp _ _ _) fun _ => ?_
  refine keeps_bind (keeps_tryCatch (keeps_createBackup hr (hA _ nofun nofun nofun) fun step n c =>
    keeps_restoreCheckpoint hr hp _ _ _) fun e => keeps_raise _) fun artifact => ?_
  refine keeps_bind (keeps_assign _ fun _ => trivial) fun _ => ?_
  refine keeps_bind (keeps_flushArtifact hr (hA _ nofun nofun nofun) _) fun ⟨id, records⟩ => ?_
  refine keeps_bind (keeps_assign _ fun _ => trivial) fun _ => ?_
  refine keeps_bind (keeps_query hr _) fun retention => ?_
  refine keeps_bind (keeps_applyLocalRetention (hA _ nofun nofun nofun) _ _ _) fun deleted => ?_
  exact keeps_commitRegistration hr (hA _ nofun nofun nofun) _ _ _

/-- The look at the logs takes calls. -/
theorem keeps_verifyNoCriticalLogs [Unicode] (hc : A .call) (startRequestedAt : ℕ)
    (unavailable critical : Exn) :
    Keeps (Acts A j) V
      (verifyNoCriticalLogs j startRequestedAt unavailable critical : Py L Unit) := by
  refine keeps_bind (keeps_tryCatch (keeps_ask_ofReply hc) fun e =>
    keeps_ite (fun _ => keeps_raise _) fun _ => keeps_raise _) fun entries => ?_
  exact keeps_raiseIf _ _

/-- A restore that is completed ends its job. -/
theorem keeps_completeRestore (hr : A .routine) (hf : A .finish) (request : RestoreRequest) :
    Keeps (Acts A j) anyLocals (completeRestore j request) :=
  keeps_bind keeps_locals fun _ =>
    keeps_finishJob hr hf (fun _ => ⟨rfl, rfl, rfl, rfl, fun h => nomatch h⟩) fun _ => rfl

/-- So does one that fails. -/
theorem keeps_failRestore (hr : A .routine) (hf : A .finish) (request : RestoreRequest)
    (category message : String) :
    Keeps (Acts A j) anyLocals (failRestore j request category message) :=
  keeps_bind keeps_locals fun _ =>
    keeps_finishJob hr hf (fun _ => ⟨rfl, rfl, rfl, rfl, fun h => nomatch h⟩) fun _ => rfl

/-- A restore is applied without a signal, a cleanup or an end. -/
theorem keeps_applyRestore [Unicode] (hA : ∀ c, c ≠ .signal → c ≠ .cleanup → c ≠ .finish → A c)
    (request : RestoreRequest) : Keeps (Acts A j) anyLocals (applyRestore j request) := by
  have hcall : A .call := hA _ nofun nofun nofun
  have hcheckpoint (step : String) (n : ℕ) (d : Bool) :
      Keeps (Acts A j) anyLocals (restoreCheckpoint j step n d : Py RestoreLocals Unit) :=
    keeps_restoreCheckpoint (hA _ nofun nofun nofun) (hA _ nofun nofun nofun) step n d
  refine keeps_bind (hcheckpoint _ _ _) fun _ => ?_
  refine keeps_reply_of (hA .server nofun nofun nofun) (fun _ => keeps_ofReply _) fun stop => ?_
  refine keeps_bind (keeps_raiseIf _ _) fun _ => ?_
  refine keeps_bind (keeps_assign _ fun _ => trivial) fun _ => ?_
  refine keeps_bind (hcheckpoint _ _ _) fun _ => ?_
  refine keeps_reply_of hcall (fun _ => keeps_ofReply _) fun _ => ?_
  refine keeps_bind (hcheckpoint _ _ _) fun _ => ?_
  refine keeps_bind (keeps_ask _ hcall) fun startRequestedAt => ?_
  refine keeps_reply_of hcall (fun _ => keeps_ofReply _) fun start => ?_
  refine keeps_bind (keeps_raiseIf _ _) fun _ => keeps_bind (hcheckpoint _ _ _) fun _ => ?_
  exact keeps_verifyNoCriticalLogs hcall _ _ _

/-- A preventive backup without a record is cleaned up. -/
theorem keeps_removePreventive (hc : A .cleanup) (preventive : Option BackupArtifact)
    (recordId : Option ℕ) :
    Keeps (Acts A j) V (removePreventive j preventive recordId : Py L Unit) :=
  keeps_ite (fun _ => keeps_removeUnregistered hc _) fun _ => keeps_pure _

/-- The body of a restore. -/
theorem keeps_runRestore [Unicode] (driveService : Bool) (request : RestoreRequest) :
    Keeps (Acts silent j) anyLocals (runRestore driveService j request) := by
  refine keeps_bind (keeps_query nofun _) fun record => ?_
  refine keeps_bind (keeps_prepareRestore (fun _ h _ _ => h) _ _ _) fun _ => ?_
  refine keeps_bind (keeps_makePreventiveBackup (fun _ h _ _ => h) _) fun _ => ?_
  refine keeps_bind (keeps_applyRestore (fun _ h _ _ => h) _) fun _ => ?_
  exact keeps_completeRestore nofun nofun _

/-- Its handlers. -/
theorem keeps_handleRestore (request : RestoreRequest) (e : Exn) :
    Keeps (Acts silent j) anyLocals (handleRestore j request e) := by
  unfold handleRestore
  split
  · exact keeps_failRestore nofun nofun _ _ _
  · refine keeps_bind keeps_locals fun ℓ => keeps_bind (keeps_removePreventive nofun _ _) fun _ => ?_
    exact keeps_bind (keeps_failRestore nofun nofun _ _ _) fun _ => keeps_raise _

/-- **The executor of a restore.** -/
theorem keeps_executeRestore [Unicode] (driveService : Bool) :
    Keeps (Acts silent j) V (executeRestore driveService j : Py L Unit) := by
  refine keeps_scope (keeps_bind (keeps_query nofun _) fun request => ?_)
  exact keeps_tryCatch (keeps_runRestore _ _) (keeps_handleRestore _)

end Restore

section Update

/-- An update that fails ends its job. -/
theorem keeps_failUpdate (hr : A .routine) (hf : A .finish) (category message : String)
    (review : Bool) (recordId : Option ℕ) :
    Keeps (Acts A j) V (failUpdate j category message review recordId : Py L Unit) :=
  keeps_bind (keeps_finishJob hr hf (fun _ => ⟨rfl, rfl, rfl, rfl, fun h => nomatch h⟩) fun _ => rfl)
    fun _ => keeps_appendJobLog hr _

/-- A check ends its job. -/
theorem keeps_finishCheck (hr : A .routine) (hf : A .finish) (result : Dict) :
    Keeps (Acts A j) V (finishJob j (Job.finishCheck result) : Py L Unit) :=
  keeps_finishJob hr hf (fun _ => ⟨rfl, rfl, rfl, rfl, fun h => nomatch h⟩) fun _ => rfl

/-- The body of an update check. -/
theorem keeps_runUpdateCheck : Keeps (Acts silent j) V (runUpdateCheck j : Py L Unit) := by
  refine keeps_bind (keeps_updateCheckpoint nofun nofun _ _) fun _ => ?_
  refine keeps_reply nofun rfl (fun _ => keeps_ofReply _) fun freeBytes => ?_
  refine keeps_bind (keeps_query nofun _) fun settings => ?_
  refine keeps_bind (keeps_updateCheckpoint nofun nofun _ _) fun _ => ?_
  refine keeps_reply_of nofun (fun _ => keeps_ofReply _) fun build => ?_
  exact keeps_bind (keeps_finishCheck nofun nofun _) fun _ => keeps_appendJobLog nofun _

/-- **The executor of an update check.** -/
theorem keeps_executeUpdateCheck : Keeps (Acts silent j) V (executeUpdateCheck j : Py L Unit) :=
  keeps_tryCatch keeps_runUpdateCheck fun _ => keeps_failUpdate nofun nofun _ _ _ _

/-- The preventive backup of an update comes before anything final. -/
theorem keeps_makePreUpdateBackup (hA : ∀ c, c ≠ .signal → c ≠ .server → c ≠ .mark → c ≠ .finish → A c) :
    Keeps (Acts A j) anyLocals (makePreUpdateBackup j) := by
  have hr : A .routine := hA _ nofun nofun nofun nofun
  have hc (c : Bool) : A (.checkpoint c) := by cases c <;> exact hA _ nofun nofun nofun nofun
  refine keeps_bind (keeps_updateCheckpoint hr (hc _) _ _) fun _ => ?_
  refine keeps_bind (keeps_tryCatch (keeps_createBackup hr (hA _ nofun nofun nofun nofun)
    fun step n c => keeps_updateCheckpoint hr (hc c) _ _) fun e =>
      keeps_ite (fun _ => keeps_raise _) fun _ => keeps_raise _) fun artifact => ?_
  refine keeps_bind (keeps_assign _ fun _ => trivial) fun _ => ?_
  have hrec : A .record := hA _ nofun nofun nofun nofun
  refine keeps_bind (keeps_flushArtifact hr (hA _ nofun nofun nofun nofun) _) fun ⟨id, records⟩ => ?_
  refine keeps_bind (keeps_assign _ fun _ => trivial) fun _ => ?_
  refine keeps_bind (keeps_query hr _) fun retention => ?_
  refine keeps_bind (keeps_applyLocalRetention (hA _ nofun nofun nofun nofun) _ _ _)
    fun deleted => ?_
  refine keeps_bind (keeps_commitRegistration hr hrec _ _ _) fun _ => ?_
  exact keeps_reportPreventive hr hrec _

/-- The control of an update's countdown notes that the point of no return is passed. -/
theorem keeps_updateCountdownControl (hr : A .routine) (hm : A .mark) :
    (updateCountdownControl j).markIrreversible.Keeps (Acts A j) anyLocals := by
  refine keeps_bind (keeps_markIrreversible hr hm _ _) fun directive => ?_
  refine keeps_ite (fun _ => ?_) fun _ => keeps_pure _
  exact keeps_bind (keeps_assign _ fun _ => trivial) fun _ => keeps_pure _

/-- The assisted shutdown of an update neither sends a signal nor ends the job. -/
theorem keeps_shutDownForUpdate (hA : ∀ c, c ≠ .signal → c ≠ .finish → A c)
    (request : UpdateRequest) : Keeps (Acts A j) anyLocals (shutDownForUpdate j request) := by
  have hr : A .routine := hA _ nofun nofun
  have hc : A (.checkpoint true) := hA .opening nofun nofun
  refine keeps_bind (keeps_updateCheckpoint hr hc _ _) fun _ => ?_
  refine keeps_bind (keeps_tryCatch (keeps_assistedShutdown hr (hA _ nofun nofun) _ _ (fun r t =>
    keeps_countdownUpdate hr (hA _ nofun nofun) _ _ _ _ _)
      (keeps_updateCountdownControl hr (hA _ nofun nofun)))
      fun e => keeps_bind (keeps_assign _ fun _ => trivial) fun _ => keeps_raise _) fun result => ?_
  refine keeps_bind (keeps_assign _ fun _ => trivial) fun _ => ?_
  exact keeps_bind (keeps_raiseIf _ _) fun _ => keeps_raiseIf _ _

/-- Once it is applied an update never lets itself be cancelled again. -/
theorem keeps_applyUpdate [Unicode] (hA : ∀ c, c ≠ .signal → c ≠ .opening → c ≠ .mark → c ≠ .finish → A c)
    (request : UpdateRequest) : Keeps (Acts A j) anyLocals (applyUpdate j request) := by
  have hr : A .routine := hA _ nofun nofun nofun nofun
  have hc : A (.checkpoint false) := hA .closing nofun nofun nofun nofun
  have hcall : A .call := hA _ nofun nofun nofun nofun
  refine keeps_bind (keeps_updateCheckpoint hr hc _ _) fun _ => ?_
  refine keeps_bind (keeps_tryCatch (keeps_ask_ofReply (hA .server nofun nofun nofun nofun)) fun e =>
    keeps_ite (fun _ => keeps_raise _) fun _ => keeps_raise _) fun _ => ?_
  refine keeps_bind (keeps_updateCheckpoint hr hc _ _) fun _ => ?_
  refine keeps_bind (keeps_ask _ hcall) fun startRequestedAt => ?_
  refine keeps_reply_of hcall (fun _ => keeps_ofReply _) fun start => ?_
  refine keeps_bind (keeps_raiseIf _ _) fun _ => ?_
  refine keeps_bind (keeps_updateCheckpoint hr hc _ _) fun _ => ?_
  refine keeps_reply_of hcall (fun _ => keeps_ofReply _) fun after => ?_
  refine keeps_bind (keeps_raiseIf _ _) fun _ => ?_
  exact keeps_bind (keeps_verifyNoCriticalLogs hcall _ _ _) fun _ => keeps_pure _

/-- An update that is completed ends its job. -/
theorem keeps_completeUpdate (hr : A .routine) (hf : A .finish) (request : UpdateRequest)
    (before after : SteamBuildInfo) :
    Keeps (Acts A j) anyLocals (completeUpdate j request before after) := by
  refine keeps_bind keeps_locals fun ℓ => keeps_bind (keeps_finishCheck hr hf _) fun _ => ?_
  exact keeps_appendJobLog hr _

/-- The body of an update. -/
theorem keeps_runUpdate [Unicode] (request : UpdateRequest) :
    Keeps (Acts silent j) anyLocals (runUpdate j request) := by
  refine keeps_bind (keeps_updateCheckpoint nofun nofun _ _) fun _ => ?_
  refine keeps_reply nofun rfl (fun _ => keeps_ofReply _) fun freeBytes => ?_
  refine keeps_bind (keeps_raiseIf _ _) fun _ => ?_
  refine keeps_bind (keeps_updateCheckpoint nofun nofun _ _) fun _ => ?_
  refine keeps_reply_of nofun (fun _ => keeps_ofReply _) fun before => ?_
  refine keeps_bind (keeps_mergeResult nofun nofun (by simp [SteamBuildInfo.result])) fun _ => ?_
  refine keeps_ite (fun _ => ?_) fun _ => keeps_finishCheck nofun nofun _
  refine keeps_bind (keeps_makePreUpdateBackup fun _ h _ _ _ => h) fun _ => ?_
  refine keeps_bind (keeps_shutDownForUpdate (fun _ h _ => h) _) fun _ => ?_
  refine keeps_bind (keeps_applyUpdate (fun _ h _ _ _ => h) _) fun after => ?_
  exact keeps_completeUpdate nofun nofun _ _ _

/-- Its handlers. -/
theorem keeps_handleUpdate (hr : A .routine) (hf : A .finish) (request : UpdateRequest) (e : Exn) :
    Keeps (Acts A j) anyLocals (handleUpdate j request e) := by
  refine keeps_bind keeps_locals fun ℓ => ?_
  cases e with
  | updateCancelled =>
    refine keeps_bind (keeps_finishJob hr hf (fun _ => ⟨rfl, rfl, rfl, rfl, fun h => nomatch h⟩)
      fun _ => rfl) fun _ => ?_
    exact keeps_appendJobLog hr _
  | _ => exact keeps_failUpdate hr hf _ _ _ _

/-- The cleanup at its end. -/
theorem keeps_cleanUpUpdate (hc : A .cleanup) : Keeps (Acts A j) anyLocals (cleanUpUpdate j) :=
  keeps_bind keeps_locals fun _ => keeps_removePreventive hc _ _

/-- An update, with its handlers and its cleanup. -/
theorem keeps_executeUpdate [Unicode] :
    Keeps (Acts silent j) V (executeUpdate j : Py L Unit) := by
  refine keeps_scope (keeps_bind (keeps_tryCatch
    (keeps_bind (keeps_query nofun _) fun _ => keeps_pure _) fun e =>
      keeps_bind (keeps_failUpdate nofun nofun _ _ _ _) fun _ => keeps_pure _) fun request => ?_)
  cases request with
  | none => exact keeps_pure _
  | some request =>
    exact keeps_ensuring (keeps_tryCatch (keeps_runUpdate _) fun e =>
      keeps_handleUpdate nofun nofun _ _) (keeps_cleanUpUpdate nofun)

/-- **The executor of update jobs.** -/
theorem keeps_executeUpdateJob [Unicode] :
    Keeps (Acts silent j) V (executeUpdateJob j : Py L Unit) := by
  refine keeps_bind (keeps_query nofun _) fun kind => ?_
  split
  · exact keeps_executeUpdateCheck
  · exact keeps_executeUpdate
  · exact keeps_raise _

/-- Their fallback. -/
theorem keeps_failUnexpectedUpdate (hr : A .routine) (hf : A .finish) :
    Keeps (Acts A j) V (failUnexpectedUpdate j : Py L Unit) := by
  refine keeps_bind (keeps_query hr _) fun job => ?_
  exact keeps_ite (fun _ => keeps_failUpdate hr hf _ _ _ _) fun _ => keeps_pure _

end Update

section Worker

/-- **Every executor is busy with its own job.** -/
theorem keeps_executor [Unicode] (cfg : WorkerConfig) (kind : JobKind) :
    Keeps (Acts kind.allows j) V (executor cfg j kind : Py L Unit) := by
  have hforced {kind : JobKind} (h : kind = .shutdown .forceTerm ∨ kind = .shutdown .forceKill) :
      Keeps (Acts kind.allows j) V (executeForcedShutdownJob j : Py L Unit) :=
    keeps_acts_mono keeps_executeForcedShutdownJob fun _ _ _ => h
  cases kind with
  | lifecycle action => exact keeps_acts_mono keeps_executeLifecycleJob allows_of_silent
  | shutdown kind =>
    cases kind with
    | assisted => exact keeps_acts_mono keeps_executeAssistedShutdownJob allows_of_silent
    | forceTerm => exact hforced (.inl rfl)
    | forceKill => exact hforced (.inr rfl)
  | localBackup => exact keeps_acts_mono (keeps_executeLocalBackup _) allows_of_silent
  | restore location => exact keeps_acts_mono (keeps_executeRestore _) allows_of_silent
  | drive operation => exact keeps_acts_mono keeps_executeDrive allows_of_silent
  | updateCheck => exact keeps_acts_mono keeps_executeUpdateJob allows_of_silent
  | update => exact keeps_acts_mono keeps_executeUpdateJob allows_of_silent
  | hostPower action => exact keeps_acts_mono keeps_executeHostPower allows_of_silent

/-- A fallback takes routine steps and the end of the job. -/
theorem keeps_fallback (hr : A .routine) (hf : A .finish) (kind : JobKind) :
    Keeps (Acts A j) V (fallback j kind : Py L Unit) := by
  cases kind with
  | lifecycle action => exact keeps_failLifecycleJob hr hf
  | shutdown kind => exact keeps_completeShutdownJob hr hf _
  | localBackup => exact keeps_pure _
  | restore location => exact keeps_pure _
  | drive operation => exact keeps_pure _
  | updateCheck => exact keeps_failUnexpectedUpdate hr hf
  | update => exact keeps_failUnexpectedUpdate hr hf
  | hostPower action => exact keeps_failHostPower hr hf

/-- The log is opened in routine. -/
theorem keeps_openLog (hr : A .routine) (kind : JobKind) :
    Keeps (Acts A j) V (openLog j kind : Py L Unit) := by
  refine keeps_bind (keeps_appendLog hr _) fun _ => ?_
  split
  · exact keeps_appendLog hr _
  · exact keeps_pure _

/-- It is closed in routine. -/
theorem keeps_closeLog (hr : A .routine) : Keeps (Acts A j) V (closeLog j : Py L Unit) :=
  keeps_bind (keeps_query hr _) fun _ => keeps_appendLog hr _

/-- What the worker does for the job it claimed, up to the release of the lock. -/
theorem keeps_runClaimed [Unicode] (cfg : WorkerConfig) (kind : JobKind) :
    Keeps (Acts kind.allows j) V (runClaimed cfg j kind : Py L Unit) := by
  refine keeps_bind (keeps_tryCatch ?_ fun e => ?_) fun finished => ?_
  · exact keeps_bind (keeps_bind (keeps_openLog nofun _) fun _ => keeps_executor _ _)
      fun _ => keeps_pure _
  · refine keeps_bind (keeps_appendLog nofun _) fun _ => ?_
    exact keeps_bind (keeps_fallback nofun nofun _) fun _ => keeps_pure _
  · exact keeps_ite (fun _ => keeps_closeLog nofun) fun _ => keeps_pure _

end Worker

end PalworldManager
