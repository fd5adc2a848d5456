/-
# A job is ended once

The completion functions write the final status of a job from a session of their own, whatever
status they find (`restores/jobs.py`, `_complete`; `shutdown/jobs.py`, `_complete_shutdown_job`;
`fail_lifecycle_job`).  Two things decide whether that can do harm.  One is the text of the
executors and of the fallbacks of `process_next`: between them they end the job once at most.
`Finishes` follows it, and `ending` is the contract of a round that comes of it, so in every
run a completion is the first of its job (`Run.ended_once`).

The other is the environment.  A completion that is the first finds its job `RUNNING`, unless a
worker has recovered the jobs since the claim, and then it finds it `INTERRUPTED`.  So the law of
the statuses holds of a run if and only if no worker recovers the jobs between the claim of a job
and its completion (`Run.forward_iff`).
-/

import PalworldManager.System.Maintenance
import PalworldManager.System.Rounds

namespace PalworldManager

open Effects Text
open Effects.Exec hiding bind ask

variable {L L' α β : Type} {j : JobId} {kind : JobKind} {s s' : World} {tr : List Ev} {e : Ev}

/-- **The guarantee**: a completion is the first of its job, and finds it running, or interrupted
by a recovery. -/
def EndsOnce (j : JobId) (s : World) (tr : List Ev) (e : Ev) (_ : World) : Prop :=
  ∀ found new, e = .tx (.finish j found new) →
    ¬Finished j tr ∧ (s.status j = some .running ∨ s.status j = some .interrupted)

/-- The row of a job in a round that has the trace `tr`: it is active only as long as the round
has not ended the job. -/
structure Held (j : JobId) (kind : JobKind) (s : World) (tr : List Ev) : Prop where
  rowed : Rowed j kind s tr
  closed : Finished j tr → ∃ job, s.jobs.get j = some job ∧ job.status.isActive = false

/-- A step that ends no job leaves a job as much ended as it was. -/
theorem finished_concat (he : stepClass e ≠ .finish) : Finished j (tr ++ [e]) ↔ Finished j tr := by
  refine ⟨fun ⟨found, new, hmem⟩ => ?_, fun h => h.append _⟩
  rcases List.mem_append.mp hmem with hmem | hmem
  · exact ⟨found, new, hmem⟩
  · obtain rfl : .tx (.finish j found new) = e := by simpa using hmem
    exact absurd rfl he

/-- A step that is no completion of the job meets the guarantee. -/
theorem endsOnce_of_ne (he : stepClass e ≠ .finish) : EndsOnce j s tr e s' := by
  rintro found new rfl
  exact absurd rfl he

/-- What the other parties do leaves an ended job ended. -/
theorem Held.others (h : Held j kind s tr) (ho : Others j s s') : Held j kind s' tr := by
  refine ⟨h.rowed.others ho, fun hf => ?_⟩
  obtain ⟨job, hj, hactive⟩ := h.closed hf
  obtain ⟨job', hj', ht⟩ := ho job hj (by rintro hp; simp [hp, JobStatus.isActive] at hactive)
  refine ⟨job', hj', ?_⟩
  rcases ht.status with ⟨hs, -⟩ | ⟨hs, -⟩
  · rw [hs, hactive]
  · simp [hs, JobStatus.isActive] at hactive

/-- A completion leaves an ended job. -/
theorem Ended.inactive {found new : JobStatus} (h : Ended j found new s s') :
    ∃ job, s'.jobs.get j = some job ∧ job.status.isActive = false := by
  obtain ⟨-, job, -, hj, -, -, rfl, hnew⟩ := h.row
  exact ⟨job, hj, JobStatus.isActive_of_isOutcome hnew⟩

/-- A step of the round ends the job, or leaves its status. -/
theorem Held.busy (h : Held j kind s tr) (hb : Busy j s e s') : Held j kind s' (tr ++ [e]) := by
  refine ⟨h.rowed.worked (.inl hb), fun ⟨found, new, hmem⟩ => ?_⟩
  rcases List.mem_append.mp hmem with hmem | hmem
  · obtain ⟨job, hj, hactive⟩ := h.closed ⟨found, new, hmem⟩
    rcases hb.cases with hp | ⟨found', new', -, hend⟩
    · obtain ⟨job', hj', -, hs⟩ := hp.row job hj
      exact ⟨job', hj', by rw [hs, hactive]⟩
    · exact hend.inactive
  · obtain rfl : .tx (.finish j found new) = e := by simpa using hmem
    exact (Effect.ended hb found new rfl).inactive

/-- What a first completion finds. -/
theorem Held.found (h : Held j kind s tr) (hf : ¬Finished j tr) :
    s.status j = some .running ∨ s.status j = some .interrupted := by
  obtain ⟨job, hj, -, -, hunfinished⟩ := h.rowed.row
  rw [status_of_get hj]
  exact (hunfinished hf).imp (congrArg some) (congrArg some)

/-- **A body that ends its job once at most.**  A `clean` one raises only where it has not ended
it, so that a handler may still do so. -/
structure Finishes (j : JobId) (kind : JobKind) (clean : Prop) (x : Py L α) : Prop where
  run : ∀ ℓ s tr, Held j kind s tr → ¬Finished j tr →
    wp (Others j) (EndsOnce j) x (fun _ _ s tr => Held j kind s tr)
      (fun _ _ s tr => Held j kind s tr ∧ (clean → ¬Finished j tr)) ℓ s tr

section Rules

variable {clean : Prop}

/-- What ends no job holds the row, ended or not. -/
theorem wp_held {p : Prop} {x : Py L α} (hx : Keeps (Acts (· ≠ .finish) j) anyLocals x) {ℓ : L}
    (h : Held j kind s tr) (hp : p → ¬Finished j tr) :
    wp (Others j) (EndsOnce j) x (fun _ _ s tr => Held j kind s tr ∧ (p → ¬Finished j tr))
      (fun _ _ s tr => Held j kind s tr ∧ (p → ¬Finished j tr)) ℓ s tr := by
  refine wp_mono (wp_keeps (I := fun s tr => Held j kind s tr ∧ (p → ¬Finished j tr)) hx ?_ ?_
    ⟨h, hp⟩) (fun _ _ _ _ h => h.2) fun _ _ _ _ h => h.2
  · exact fun _ _ _ ho h => ⟨h.1.others ho, h.2⟩
  · exact fun s tr e s' h ha => ⟨⟨h.1.busy ha.1, fun hp => (finished_concat ha.2).not.mpr (h.2 hp)⟩,
      endsOnce_of_ne ha.2⟩

/-- A body without a completion. -/
theorem finishes_of_keeps {x : Py L α} (hx : Keeps (Acts (· ≠ .finish) j) anyLocals x) :
    Finishes j kind clean x :=
  ⟨fun _ _ _ h hf => wp_mono (wp_held hx h fun _ => hf) (fun _ _ _ _ h => h.1) fun _ _ _ _ h => h⟩

/-- What stands before the completion ends no job. -/
theorem finishes_before {x : Py L α} {f : α → Py L β} (hx : Keeps (Acts (· ≠ .finish) j) anyLocals x)
    (hf : ∀ a, Finishes j kind clean (f a)) : Finishes j kind clean (x >>= f) := by
  refine ⟨fun ℓ s tr h hn => (wp_bind _ _).mpr (wp_mono (wp_held hx h fun _ : True => hn) ?_ ?_)⟩
  · exact fun a ℓ s tr h => (hf a).run ℓ s tr h.1 (h.2 trivial)
  · exact fun _ _ _ _ h => ⟨h.1, fun _ => h.2 trivial⟩

/-- What stands after it ends no job either, but may raise. -/
theorem finishes_after {x : Py L α} {f : α → Py L β} (hx : Finishes j kind False x)
    (hf : ∀ a, Keeps (Acts (· ≠ .finish) j) anyLocals (f a)) : Finishes j kind False (x >>= f) := by
  refine ⟨fun ℓ s tr h hn => (wp_bind _ _).mpr (wp_mono (hx.run ℓ s tr h hn) ?_ ?_)⟩
  · exact fun a ℓ s tr h => wp_mono (wp_held (hf a) h False.elim) (fun _ _ _ _ h => h.1)
      fun _ _ _ _ h => h
  · exact fun _ _ _ _ h => h

/-- Nothing is done after it. -/
theorem finishes_last {x : Py L α} {g : α → β} (hx : Finishes j kind clean x) :
    Finishes j kind clean (x >>= fun a => (pure (g a) : Py L β)) :=
  ⟨fun ℓ s tr h hn => (wp_bind _ _).mpr (wp_mono (hx.run ℓ s tr h hn)
    (fun _ _ _ _ h => (wp_pure _).mpr h) fun _ _ _ _ h => h)⟩

/-- A handler may end the job that the body has not ended. -/
theorem finishes_tryCatch {x : Py L α} {h : Exn → Py L α} (hx : Finishes j kind True x)
    (hh : ∀ e, Finishes j kind clean (h e)) : Finishes j kind clean (Exec.tryCatch x h) :=
  ⟨fun ℓ s tr hheld hn => (wp_tryCatch _ _).mpr (wp_mono (hx.run ℓ s tr hheld hn)
    (fun _ _ _ _ h => h) fun e ℓ s tr h => (hh e).run ℓ s tr h.1 (h.2 trivial))⟩

/-- What a `finally` clause does ends no job. -/
theorem finishes_ensuring {x : Py L α} {y : Py L Unit} (hx : Finishes j kind False x)
    (hy : Keeps (Acts (· ≠ .finish) j) anyLocals y) : Finishes j kind False (Exec.ensuring x y) := by
  have hfinally {ℓ : L} {s : World} {tr : List Ev} (h : Held j kind s tr) :
      wp (Others j) (EndsOnce j) y (fun _ _ s tr => Held j kind s tr)
        (fun _ _ s tr => Held j kind s tr ∧ (False → ¬Finished j tr)) ℓ s tr :=
    wp_mono (wp_held hy h False.elim) (fun _ _ _ _ h => h.1) fun _ _ _ _ h => h
  refine ⟨fun ℓ s tr h hn => (wp_ensuring _ _).mpr (wp_mono (hx.run ℓ s tr h hn) ?_ ?_)⟩
  · exact fun _ _ _ _ h => hfinally h
  · exact fun _ _ _ _ h => wp_mono (hfinally h.1) (fun _ _ _ _ h => ⟨h, False.elim⟩)
      fun _ _ _ _ h => h

/-- A body with two branches. -/
theorem finishes_ite {p : Prop} [Decidable p] {x y : Py L α} (hx : p → Finishes j kind clean x)
    (hy : ¬p → Finishes j kind clean y) : Finishes j kind clean (if p then x else y) := by
  by_cases h : p
  · simpa only [h, if_true] using hx h
  · simpa only [h, if_false] using hy h

/-- A body under local variables of its own. -/
theorem finishes_scope {ℓ' : L'} {x : Py L' α} (hx : Finishes j kind clean x) :
    Finishes j kind clean (Exec.scope ℓ' x : Py L α) :=
  ⟨fun _ s tr h hn => (wp_scope _ _).mpr (hx.run ℓ' s tr h hn)⟩

/-- A body that is clean under a weaker condition. -/
theorem Finishes.mono {clean' : Prop} {x : Py L α} (hx : Finishes j kind clean x)
    (h : clean' → clean) : Finishes j kind clean' x :=
  ⟨fun ℓ s tr hheld hn => wp_mono (hx.run ℓ s tr hheld hn) (fun _ _ _ _ h => h)
    fun _ _ _ _ hq => ⟨hq.1, fun hc => hq.2 (h hc)⟩⟩

/-- **A session either commits the completion or raises.** -/
theorem finishes_session {A : StepClass → Prop} {f : World → Except Exn (α × World)}
    {label : α → Label} (hx : Keeps (Acts A j) anyLocals (session f label : Py L α)) :
    Finishes j kind clean (session f label : Py L α) := by
  refine ⟨fun ℓ s tr h hn => (wp_session _ _).mpr fun s₁ ho => ⟨fun a s' hok => ?_, fun e _ => ?_⟩⟩
  · have hstep : Busy j s₁ (.tx (label a)) s' := by
      have hfirst := (hx.all ℓ s₁).1
      simp only [hok] at hfirst
      exact hfirst.1
    exact ⟨fun _ _ _ => ⟨hn, (h.others ho).found hn⟩, (h.others ho).busy hstep⟩
  · have hread : Busy j s₁ (.tx .read) s₁ := effect_read j s₁
    have hcls : stepClass (.tx .read) ≠ .finish := nofun
    exact ⟨endsOnce_of_ne hcls, (h.others ho).busy hread, fun _ => (finished_concat hcls).not.mpr hn⟩

/-- The session of a completion. -/
theorem finishes_finishJob {A : StepClass → Prop} {write : Job → Job}
    (hx : Keeps (Acts A j) anyLocals (finishJob j write : Py L Unit)) :
    Finishes j kind clean (finishJob j write : Py L Unit) := by
  refine ⟨fun ℓ s tr h hn => (wp_finishJob _ _).mpr fun s₁ ho => ⟨fun job hj => ?_, fun hnone => ?_⟩⟩
  · have hstep : Busy j s₁ (.tx (.finish j job.status (write job).status)) (s₁.modifyJob j write) := by
      have hfirst := (hx.all ℓ s₁).1
      simp only [World.getOne, hj, Except.map] at hfirst
      exact hfirst.1
    exact ⟨fun _ _ _ => ⟨hn, (h.others ho).found hn⟩, (h.others ho).busy hstep⟩
  · obtain ⟨job, hj, -⟩ := (h.others ho).rowed.row
    simp [hnone] at hj

/-- The log of an ended job is written without raising. -/
theorem finishes_appendJobLog {x : Py L Unit} (hx : Finishes j kind clean x) (message : String) :
    Finishes j kind clean (x >>= fun _ => appendJobLog j message) := by
  refine ⟨fun ℓ s tr h hn => (wp_bind _ _).mpr (wp_mono (hx.run ℓ s tr h hn)
    (fun _ ℓ s tr h => ?_) fun _ _ _ _ h => h)⟩
  rw [appendJobLog, wp_bind, wp_query]
  intro s₁ ho
  have h₁ := h.others ho
  have hread : Busy j s₁ (.tx .read) s₁ := effect_read j s₁
  refine ⟨endsOnce_of_ne nofun, fun path _ => (wp_ite _ _ _).mpr ⟨fun _ => ?_, fun _ => ?_⟩,
    fun e he => ?_⟩
  · refine (wp_appendLog _ _).mpr fun s₂ ho₂ r => ⟨endsOnce_of_ne nofun, ?_⟩
    exact ((h₁.busy hread).others ho₂).busy ⟨rfl, rfl⟩
  · exact (wp_pure _).mpr (h₁.busy hread)
  · obtain ⟨job, hj, -⟩ := h₁.rowed.row
    simp [getOne_of_some hj, Except.map] at he

end Rules

section Executors

variable {clean : Prop}

/-- `execute_lifecycle_job` ends its job once at most. -/
theorem finishes_executeLifecycleJob :
    Finishes j kind clean (executeLifecycleJob j : Py L Unit) := by
  refine finishes_before (keeps_query nofun _) fun ⟨action, timeout⟩ => ?_
  have hcall : Call.cls (.lifecycle action timeout) ≠ .finish := by cases action <;> nofun
  refine finishes_before (keeps_ask _ hcall) fun r => ?_
  exact finishes_before (keeps_ofReply r) fun result =>
    finishes_finishJob (keeps_finishLifecycle timeout result)

/-- `complete_shutdown_job` is one completion. -/
theorem finishes_completeShutdownJob (result : AssistedShutdownResult) :
    Finishes j kind clean (completeShutdownJob j result : Py L Unit) :=
  finishes_finishJob (keeps_completeShutdownJob (A := anyClass) trivial trivial result)

/-- `execute_assisted_shutdown_job` ends its job once at most. -/
theorem finishes_executeAssistedShutdownJob :
    Finishes j kind clean (executeAssistedShutdownJob j : Py L Unit) := by
  refine finishes_before (keeps_query nofun _) fun ⟨minutes, timeout⟩ => ?_
  refine finishes_before (keeps_assistedShutdown nofun nofun _ _ (fun r t => ?_)
    (keeps_markIrreversible nofun nofun _ _)) fun result => finishes_completeShutdownJob result
  exact keeps_countdownUpdate nofun nofun _ _ _ _ _

/-- `execute_forced_shutdown_job` ends its job once at most. -/
theorem finishes_executeForcedShutdownJob :
    Finishes j kind clean (executeForcedShutdownJob j : Py L Unit) := by
  refine finishes_before (keeps_query nofun _) fun ⟨signal, timeout⟩ => ?_
  exact finishes_before (keeps_forcedShutdown nofun nofun nofun _ _) fun result =>
    finishes_completeShutdownJob result

/-- The completion of a job for the power of the host. -/
theorem finishes_finishHostPower (succeeded : Bool) (initial : Option PalworldHealthState)
    (handling : String) (failure : Option String) (requested : Bool) :
    Finishes j kind clean
      (finishJob j (Job.finishHostPower succeeded initial handling failure requested) :
        Py L Unit) :=
  finishes_finishJob (keeps_finishHostPower (A := anyClass) trivial trivial _ _ _ _ _)

/-- The request to the host ends the job as accepted or as refused. -/
theorem finishes_requestHostPower (action : HostPowerAction) (initial : PalworldHealthState)
    (handling : String) :
    Finishes j kind clean (requestHostPower j action initial handling : Py L Unit) := by
  refine finishes_before (keeps_updateJob nofun nofun
    (fun _ => ⟨⟨rfl, rfl, rfl, rfl, fun h => nomatch h⟩, rfl⟩) fun _ => rfl) fun _ => ?_
  refine finishes_before (keeps_tryCatch ?_ fun e =>
    keeps_ite (fun _ => keeps_pure _) fun _ => keeps_raise _) fun requested => ?_
  · exact keeps_reply_of nofun (fun _ => keeps_ofReply _) fun _ => keeps_pure _
  · exact finishes_ite (fun _ => finishes_finishHostPower _ _ _ _ _)
      fun _ => finishes_finishHostPower _ _ _ _ _

/-- The executor of these jobs ends its job once at most. -/
theorem finishes_executeHostPower : Finishes j kind clean (executeHostPower j : Py L Unit) := by
  refine finishes_before (keeps_checkPalworld nofun nofun) fun ⟨action, timeout⟩ => ?_
  refine finishes_before (keeps_ask _ nofun) fun r => ?_
  refine finishes_before (keeps_ofReply r) fun initial => ?_
  refine finishes_ite (fun _ => finishes_requestHostPower _ _ _) fun _ => ?_
  refine finishes_before (keeps_updateJob nofun nofun (fun _ => ⟨⟨rfl, rfl, rfl, rfl, .inl⟩, rfl⟩)
    fun _ => rfl) fun _ => ?_
  refine finishes_before (keeps_assistedShutdown nofun nofun _ _ (fun _ _ => keeps_pure _)
    (keeps_pure _)) fun result => ?_
  exact finishes_ite (fun _ => finishes_requestHostPower _ _ _)
    fun _ => finishes_finishHostPower _ _ _ _ _

/-- The body of a local backup ends its job last. -/
theorem finishes_runLocalBackup (automatic : Bool) (trigger : String) :
    Finishes j kind clean (runLocalBackup automatic j trigger) := by
  have hc (c : Bool) : StepClass.checkpoint c ≠ .finish := by cases c <;> nofun
  refine finishes_before (keeps_createBackup nofun nofun fun step n c =>
    keeps_backupCheckpoint (hc c) step n) fun artifact => ?_
  refine finishes_before (keeps_assign _ fun _ => trivial) fun _ => ?_
  refine finishes_before (keeps_flushArtifact nofun nofun _) fun registered => ?_
  refine finishes_before (keeps_query nofun _) fun retention => ?_
  refine finishes_before (keeps_applyLocalRetention nofun _ _ _) fun deleted => ?_
  refine finishes_last (finishes_before (keeps_storage _ nofun) fun _ => ?_)
  exact finishes_session (A := anyClass) <|
    keeps_session trivial fun s p s' h => ⟨effect_commitBackup h, trivial⟩

/-- A completion as failed or cancelled. -/
theorem finishes_finishFailed {status : JobStatus} (step error : String)
    (h : status.isOutcome = true) :
    Finishes j kind clean (finishJob j (Job.finishFailed status step error) : Py L Unit) :=
  finishes_finishJob (keeps_finishFailed (A := anyClass) trivial trivial _ _ h)

/-- A failed backup is ended before its handler raises again. -/
theorem finishes_handleLocalBackup (e : Exn) :
    Finishes j kind False (handleLocalBackup j e) := by
  unfold handleLocalBackup
  split
  · exact finishes_finishFailed _ _ rfl
  · refine finishes_before keeps_locals fun ℓ => ?_
    refine finishes_before (keeps_removeUnregistered nofun _) fun _ => ?_
    exact finishes_after (finishes_finishFailed _ _ rfl) fun _ => keeps_raise _

/-- A local backup ends its job in its body or in its handler, which may raise after it. -/
theorem finishes_executeLocalBackup (automatic : Bool) :
    Finishes j kind False (executeLocalBackup automatic j : Py L Unit) := by
  refine finishes_scope (finishes_before (keeps_query nofun _) fun trigger => ?_)
  exact finishes_tryCatch (finishes_runLocalBackup automatic trigger) finishes_handleLocalBackup

/-- The body of a Restore ends its job last. -/
theorem finishes_runRestore [Unicode] (driveService : Bool) (request : RestoreRequest) :
    Finishes j kind clean (runRestore driveService j request) := by
  have hA : ∀ c : StepClass, c ≠ .signal → c ≠ .cleanup → c ≠ .finish → c ≠ .finish :=
    fun _ _ _ h => h
  refine finishes_before (keeps_query nofun _) fun record => ?_
  refine finishes_before (keeps_prepareRestore hA _ _ _) fun _ => ?_
  refine finishes_before (keeps_makePreventiveBackup hA _) fun _ => ?_
  refine finishes_before (keeps_applyRestore hA _) fun _ => ?_
  refine finishes_before keeps_locals fun ℓ => ?_
  exact finishes_finishJob (A := anyClass) <|
    keeps_finishJob trivial trivial (fun _ => ⟨rfl, rfl, rfl, rfl, fun h => nomatch h⟩) fun _ => rfl

/-- `fail_restore` is one completion. -/
theorem finishes_failRestore (request : RestoreRequest) (category message : String) :
    Finishes j kind clean (failRestore j request category message) :=
  finishes_before keeps_locals fun _ => finishes_finishJob (A := anyClass) <|
    keeps_finishJob trivial trivial (fun _ => ⟨rfl, rfl, rfl, rfl, fun h => nomatch h⟩) fun _ => rfl

/-- A restore that failed unexpectedly is ended before its handler raises again. -/
theorem finishes_handleRestore (request : RestoreRequest) (e : Exn) :
    Finishes j kind False (handleRestore j request e) := by
  unfold handleRestore
  split
  · exact finishes_failRestore _ _ _
  · refine finishes_before keeps_locals fun ℓ => ?_
    refine finishes_before (keeps_removePreventive nofun _ _) fun _ => ?_
    exact finishes_after (finishes_failRestore _ _ _) fun _ => keeps_raise _

/-- A Restore ends its job in its body or in its handler. -/
theorem finishes_executeRestore [Unicode] (driveService : Bool) :
    Finishes j kind False (executeRestore driveService j : Py L Unit) := by
  refine finishes_scope (finishes_before (keeps_query nofun _) fun request => ?_)
  exact finishes_tryCatch (finishes_runRestore _ _) (finishes_handleRestore _)

/-- The completion of a Drive job. -/
theorem finishes_finishDrive {status : JobStatus} (step : String) (result : Dict)
    (h : status.isOutcome = true) :
    Finishes j kind clean (finishJob j (Job.finishDrive status step result) : Py L Unit) :=
  finishes_finishJob (keeps_finishDrive (A := anyClass) trivial trivial _ _ _ h)

/-- An upload ends its job last. -/
theorem finishes_executeDriveUpload (result : Dict) :
    Finishes j kind clean (executeDriveUpload j result : Py L Unit) := by
  have hc (c : Bool) (step : String) (n : ℕ) :
      Keeps (Acts (· ≠ .finish) j) anyLocals (driveCheckpoint j step n c : Py L Unit) :=
    keeps_driveCheckpoint (by cases c <;> nofun) step n
  refine finishes_before (keeps_ofExcept _) fun recordId => finishes_before (hc _ _ _) fun _ => ?_
  refine finishes_before (keeps_query nofun _) fun requiredBytes => ?_
  refine finishes_before (hc _ _ _) fun _ => ?_
  refine finishes_before (keeps_prepareCapacity nofun nofun _) fun _ => ?_
  refine finishes_before (hc _ _ _) fun _ => finishes_before (keeps_query nofun _) fun record => ?_
  refine finishes_before (keeps_transferUpload nofun nofun nofun _ (keeps_cancelRequested nofun))
    fun remote => finishes_before (hc _ _ _) fun _ => finishes_tryCatch ?_ fun e => ?_
  · exact finishes_last <| finishes_session (A := anyClass) <|
      keeps_session trivial fun s p s' h => ⟨effect_commitUpload h, trivial⟩
  · refine finishes_of_keeps (keeps_bind (keeps_bind (keeps_raiseIf _ _) fun _ => ?_)
      fun _ => keeps_raise _)
    exact keeps_storageDelete nofun _

/-- So does a download. -/
theorem finishes_executeDriveDownload (result : Dict) :
    Finishes j kind clean (executeDriveDownload j result : Py L Unit) := by
  refine finishes_before (keeps_ofExcept _) fun recordId => ?_
  refine finishes_before (keeps_driveCheckpoint nofun _ _) fun _ => ?_
  refine finishes_before (keeps_query nofun _) fun record => ?_
  refine finishes_before (keeps_transferDownload nofun nofun _ (keeps_cancelRequested nofun))
    fun artifact => ?_
  refine finishes_before (keeps_driveCheckpoint nofun _ _) fun _ => finishes_tryCatch ?_ fun e => ?_
  · refine finishes_before (keeps_flushArtifact nofun nofun _) fun registered => ?_
    refine finishes_before (keeps_query nofun _) fun retention => ?_
    refine finishes_before (keeps_applyLocalRetention nofun _ _ _) fun deleted => ?_
    refine finishes_last (finishes_before (keeps_storage _ nofun) fun _ => ?_)
    exact finishes_session (A := anyClass) <|
      keeps_session trivial fun s p s' h => ⟨effect_commitDownload h, trivial⟩
  · exact finishes_of_keeps (keeps_bind (keeps_removeManagedArtifact .executor nofun _ nofun)
      fun _ => keeps_raise _)

/-- The body of a Drive job, whichever its operation. -/
theorem finishes_runDrive (result : Dict) (operation : DriveOperation) :
    Finishes j kind clean (runDrive j result operation : Py L Unit) := by
  cases operation with
  | check =>
    refine finishes_before (keeps_driveCheckpoint nofun _ _) fun _ => ?_
    refine finishes_before (keeps_ask _ nofun) fun r => ?_
    refine finishes_before (keeps_ofReply r) fun quota => ?_
    refine finishes_before (keeps_ask _ nofun) fun r => ?_
    exact finishes_before (keeps_ofReply r) fun remoteCount => finishes_finishDrive _ _ rfl
  | upload => exact finishes_executeDriveUpload result
  | download => exact finishes_executeDriveDownload result
  | delete =>
    refine finishes_before (keeps_ofExcept _) fun recordId => ?_
    refine finishes_before (keeps_driveCheckpoint nofun _ _) fun _ => ?_
    refine finishes_before (keeps_query nofun _) fun record => ?_
    refine finishes_before (keeps_transferDelete nofun _) fun _ => ?_
    exact finishes_before (keeps_deleteRecords nofun nofun _) fun _ => finishes_finishDrive _ _ rfl

/-- The completion of a Drive job whose body raised. -/
theorem finishes_finishDriveError (result : Dict) {status : JobStatus} (step error : String)
    (h : status.isOutcome = true) :
    Finishes j kind clean (finishDriveError j result status step error : Py L Unit) :=
  finishes_before (keeps_raiseIf _ _) fun _ => finishes_finishDrive _ _ h

/-- A failed Drive job is ended before its handler raises again. -/
theorem finishes_handleDrive (result : Dict) (e : Exn) :
    Finishes j kind False (handleDrive j result e : Py L Unit) := by
  unfold handleDrive
  split
  · exact finishes_finishDriveError _ _ _ rfl
  · exact finishes_after (finishes_finishDriveError _ _ _ rfl)
      fun _ => keeps_raise _

/-- A Drive job ends in its body or in its handler. -/
theorem finishes_executeDrive : Finishes j kind False (executeDrive j : Py L Unit) := by
  refine finishes_before (keeps_query nofun _) fun ⟨operation, result⟩ => ?_
  exact finishes_tryCatch (finishes_runDrive _ _) (finishes_handleDrive _)

/-- `fail_update` is one completion. -/
theorem finishes_failUpdate (category message : String) (review : Bool) (recordId : Option ℕ) :
    Finishes j kind clean (failUpdate j category message review recordId : Py L Unit) := by
  refine finishes_appendJobLog (finishes_finishJob (A := anyClass) ?_) _
  exact keeps_finishJob trivial trivial (fun _ => ⟨rfl, rfl, rfl, rfl, fun h => nomatch h⟩)
    fun _ => rfl

/-- The completion of an update check. -/
theorem finishes_finishCheck (result : Dict) :
    Finishes j kind clean (finishJob j (Job.finishCheck result) : Py L Unit) :=
  finishes_finishJob (keeps_finishCheck (A := anyClass) trivial trivial result)

/-- An update check ends its job once at most. -/
theorem finishes_executeUpdateCheck :
    Finishes j kind clean (executeUpdateCheck j : Py L Unit) := by
  refine finishes_tryCatch ?_ fun _ => finishes_failUpdate _ _ _ _
  refine finishes_before (keeps_updateCheckpoint nofun nofun _ _) fun _ => ?_
  refine finishes_before (keeps_ask _ nofun) fun r => ?_
  refine finishes_before (keeps_ofReply r) fun freeBytes => ?_
  refine finishes_before (keeps_query nofun _) fun settings => ?_
  refine finishes_before (keeps_updateCheckpoint nofun nofun _ _) fun _ => ?_
  refine finishes_before (keeps_ask _ nofun) fun r => ?_
  refine finishes_before (keeps_ofReply r) fun build => ?_
  exact finishes_appendJobLog (finishes_finishCheck _) _

/-- The body of an update ends its job last. -/
theorem finishes_runUpdate [Unicode] (request : UpdateRequest) :
    Finishes j kind clean (runUpdate j request) := by
  refine finishes_before (keeps_updateCheckpoint nofun nofun _ _) fun _ => ?_
  refine finishes_before (keeps_ask _ nofun) fun r => ?_
  refine finishes_before (keeps_ofReply r) fun freeBytes => ?_
  refine finishes_before (keeps_raiseIf _ _) fun _ => ?_
  refine finishes_before (keeps_updateCheckpoint nofun nofun _ _) fun _ => ?_
  refine finishes_before (keeps_ask _ nofun) fun r => ?_
  refine finishes_before (keeps_ofReply r) fun before => ?_
  refine finishes_before (keeps_mergeResult nofun nofun (by simp [SteamBuildInfo.result])) fun _ => ?_
  refine finishes_ite (fun _ => ?_) fun _ => finishes_finishCheck _
  refine finishes_before (keeps_makePreUpdateBackup fun _ _ _ _ h => h) fun _ => ?_
  refine finishes_before (keeps_shutDownForUpdate (fun _ _ h => h) _) fun _ => ?_
  refine finishes_before (keeps_applyUpdate (fun _ _ _ _ h => h) _) fun after => ?_
  refine finishes_before keeps_locals fun ℓ => ?_
  exact finishes_appendJobLog (finishes_finishCheck _) _

/-- The handlers of an update end it once at most. -/
theorem finishes_handleUpdate (request : UpdateRequest) (e : Exn) :
    Finishes j kind clean (handleUpdate j request e) := by
  refine finishes_before keeps_locals fun ℓ => ?_
  cases e with
  | updateCancelled =>
    refine finishes_appendJobLog (finishes_finishJob (A := anyClass) ?_) _
    exact keeps_finishJob trivial trivial (fun _ => ⟨rfl, rfl, rfl, rfl, fun h => nomatch h⟩)
      fun _ => rfl
  | _ => exact finishes_failUpdate _ _ _ _

/-- An update is ended before its `finally` clause, which may raise. -/
theorem finishes_executeUpdate [Unicode] : Finishes j kind False (executeUpdate j : Py L Unit) := by
  refine finishes_scope ⟨fun ℓ s tr h hn => (wp_bind _ _).mpr ((wp_tryCatch _ _).mpr ?_)⟩
  have hread : Keeps (Acts (· ≠ .finish) j) anyLocals
      (do pure (some (← query (loadUpdateRequest j))) : Py UpdateLocals (Option UpdateRequest)) :=
    keeps_bind (keeps_query nofun _) fun _ => keeps_pure _
  refine wp_mono (wp_held hread h fun _ : True => hn) (fun request ℓ s tr h => ?_)
    fun e ℓ s tr h => ?_
  · cases request with
    | none => exact (wp_pure _).mpr h.1
    | some request =>
      refine (finishes_ensuring ?_ (keeps_cleanUpUpdate nofun)).run ℓ s tr h.1 (h.2 trivial)
      exact finishes_tryCatch (finishes_runUpdate request) (finishes_handleUpdate request)
  · refine (wp_bind _ _).mpr (wp_mono ((finishes_failUpdate _ _ _ _).run ℓ s tr h.1 (h.2 trivial))
      (fun _ _ _ _ h => ?_) fun _ _ _ _ h => h)
    exact (wp_pure _).mpr ((wp_pure _).mpr h)

/-- An update ends its job in its body or in one of its handlers. -/
theorem finishes_executeUpdateJob [Unicode] :
    Finishes j kind False (executeUpdateJob j : Py L Unit) := by
  refine finishes_before (keeps_query nofun _) fun kind => ?_
  split
  · exact finishes_executeUpdateCheck
  · exact finishes_executeUpdate
  · exact finishes_of_keeps (keeps_raise _)

/-- The kinds that the worker ends when their executor raised, whatever status they have. -/
def JobKind.endedByWorker : JobKind → Bool
  | .lifecycle _ | .shutdown _ | .hostPower _ => true
  | _ => false

/-- **Every executor ends its job once at most**, and one whose job the worker ends without
looking raises only where it has not ended it. -/
theorem finishes_executor [Unicode] (cfg : WorkerConfig) :
    Finishes j kind (kind.endedByWorker = true) (executor cfg j kind : Py L Unit) := by
  cases kind with
  | lifecycle action => exact finishes_executeLifecycleJob
  | shutdown kind =>
    cases kind with
    | assisted => exact finishes_executeAssistedShutdownJob
    | _ => exact finishes_executeForcedShutdownJob
  | hostPower action => exact finishes_executeHostPower
  | localBackup => exact (finishes_executeLocalBackup _).mono nofun
  | restore location => exact (finishes_executeRestore _).mono nofun
  | drive operation => exact finishes_executeDrive.mono nofun
  | updateCheck | update => exact finishes_executeUpdateJob.mono nofun

/-- The fallback of an update looks at the status, which tells whether the executor has ended the
job. -/
theorem wp_failUnexpectedUpdate_once {ℓ : L} (h : Held j kind s tr) :
    wp (Others j) (EndsOnce j) (failUnexpectedUpdate j : Py L Unit) (fun _ _ _ _ => True)
      (fun _ _ _ _ => True) ℓ s tr := by
  rw [failUnexpectedUpdate, wp_bind, wp_query]
  intro s₁ ho
  have hread : Busy j s₁ (.tx .read) s₁ := effect_read j s₁
  have h₁ := (h.others ho).busy hread
  refine ⟨endsOnce_of_ne nofun, fun job hjob => (wp_ite _ _ _).mpr ⟨fun hactive => ?_, fun _ => ?_⟩,
    fun _ _ => trivial⟩
  · have hn : ¬Finished j (tr ++ [.tx .read]) := fun hf => by
      obtain ⟨job', hj', hinactive⟩ := h₁.closed hf
      obtain rfl : job = job' := by simpa [getOne_eq_ok hjob] using hj'
      simp [hinactive] at hactive
    have hfail (review : Bool) : Finishes j kind False (failUpdate j "UNEXPECTED_UPDATE_FAILURE"
        "O Update falhou de forma controlada." review none : Py L Unit) :=
      finishes_failUpdate _ _ _ _
    exact wp_mono ((hfail _).run ℓ s₁ _ h₁ hn) (fun _ _ _ _ _ => trivial) fun _ _ _ _ _ => trivial
  · exact (wp_pure _).mpr trivial

/-- **Every fallback** finds the job unended, looks whether it is, or does nothing. -/
theorem wp_fallback_once {ℓ : L} (h : Held j kind s tr)
    (hn : kind.endedByWorker = true → ¬Finished j tr) :
    wp (Others j) (EndsOnce j) (fallback j kind : Py L Unit) (fun _ _ _ _ => True)
      (fun _ _ _ _ => True) ℓ s tr := by
  have hfinishes {x : Py L Unit} (hx : Finishes j kind False x) (hkind : kind.endedByWorker = true) :
      wp (Others j) (EndsOnce j) x (fun _ _ _ _ => True) (fun _ _ _ _ => True) ℓ s tr :=
    wp_mono (hx.run ℓ s tr h (hn hkind)) (fun _ _ _ _ _ => trivial) fun _ _ _ _ _ => trivial
  cases kind with
  | lifecycle action =>
    exact hfinishes (finishes_finishJob (keeps_failLifecycleJob (A := anyClass) trivial trivial)) rfl
  | shutdown kind => exact hfinishes (finishes_completeShutdownJob _) rfl
  | hostPower action =>
    refine hfinishes (finishes_before (keeps_query nofun _) fun initial => ?_) rfl
    exact finishes_finishHostPower _ _ _ _ _
  | updateCheck | update => exact wp_failUnexpectedUpdate_once h
  | localBackup | restore location | drive operation => exact (wp_pure _).mpr trivial

/-- **A round ends its job once at most.** -/
theorem wp_processClaimed_once [Unicode] {cfg : WorkerConfig} {ℓ : L} (h : Held j kind s tr)
    (hn : ¬Finished j tr) :
    wp (Others j) (EndsOnce j) (processClaimed cfg j kind : Py L Unit) (fun _ _ _ _ => True)
      (fun _ _ _ _ => True) ℓ s tr := by
  have hkept {p : Prop} (s : World) (tr : List Ev) (e : Ev) (s' : World)
      (h : Held j kind s tr ∧ (p → ¬Finished j tr)) (ha : Acts (· = .routine) j s e s') :
      Held j kind s' (tr ++ [e]) ∧ (p → ¬Finished j (tr ++ [e])) := by
    have hcls : stepClass e ≠ .finish := by
      rw [show stepClass e = .routine from ha.2]
      exact nofun
    exact ⟨h.1.busy ha.1, fun hp => (finished_concat hcls).not.mpr (h.2 hp)⟩
  refine wp_processClaimed_frame (I := fun s tr => Held j kind s tr ∧ (True → ¬Finished j tr))
    (X := fun s tr => Held j kind s tr ∧ (kind.endedByWorker = true → ¬Finished j tr)) ?_
    (fun _ _ _ ho h => ⟨h.1.others ho, h.2⟩) hkept (fun _ _ _ ho h => ⟨h.1.others ho, h.2⟩) hkept
    (fun _ _ h => ⟨h.1, fun _ => h.2 trivial⟩) (fun ℓ s tr h => ?_)
    (fun _ _ _ h => wp_fallback_once h.1 h.2) ⟨h, fun _ => hn⟩
  · rintro s tr e s' (he | he) <;> exact endsOnce_of_ne (by rw [he]; exact nofun)
  · exact wp_mono ((finishes_executor cfg).run ℓ s tr h.1 (h.2 trivial)) (fun _ _ _ _ _ => trivial)
      fun _ _ _ _ h => h

end Executors

/-- The contract: a round ends its job once at most. -/
def ending : Contract where
  guarantee j _ := EndsOnce j
  post _ _ _ _ _ := True

/-- The contract holds from the claim of any job on. -/
theorem ending_holds [Unicode] : ending.Holds where
  stable _ _ _ _ _ _ _ _ := trivial
  safe cfg j kind s log h := by
    have hn : ¬Finished j (claimTrace log j) := by simp [Finished, claimTrace]
    have hheld : Held j kind s (claimTrace log j) := ⟨h.begun.rowed, fun hf => absurd hf hn⟩
    exact (claimedRound_safe fun _ : True => wp_processClaimed_once hheld hn).guarantee
      fun _ _ _ _ h => h trivial

/-- Only a completion ends a job. -/
theorem Occurrence.eq_of_ends {o : Occurrence} (h : o.ends = some j) :
    ∃ w found new, o = .work w (.tx (.finish j found new)) := by
  unfold Occurrence.ends at h
  split at h
  · obtain rfl := Option.some.inj h
    exact ⟨_, _, _, rfl⟩
  · cases h

/-- A worker recovers the jobs. -/
def Occurrence.recovers : Occurrence → Bool
  | .recover _ => true
  | _ => false

namespace System

/-- The jobs that are ended in a history. -/
def endedJobs (h : History) : List JobId := h.filterMap fun x => x.1.ends

/-- No worker recovers the jobs between the claim of a job and its completion. -/
def Undisturbed (h : History) : Prop :=
  ∀ pre o s post j, h = pre ++ (o, s) :: post → o.ends = some j → ¬RecoveredSince j pre

section Histories

variable {h : History} {o : Occurrence} {s : World} {j : JobId}

/-- One more occurrence, and the job that it ends. -/
theorem endedJobs_concat : endedJobs (h ++ [(o, s)]) = endedJobs h ++ o.ends.toList := by
  rw [endedJobs, List.filterMap_append]
  cases ho : o.ends <;> simp [endedJobs, ho]

/-- A job that is ended in a history is ended in its own events. -/
theorem finished_of_mem_endedJobs (hj : j ∈ endedJobs h) : Finished j (jobEvents j h) := by
  obtain ⟨⟨o, s⟩, hmem, ho⟩ := List.mem_filterMap.mp hj
  obtain ⟨w, found, new, rfl⟩ := Occurrence.eq_of_ends ho
  exact ⟨found, new, mem_jobEvents.mpr ⟨⟨w, s, hmem⟩, rfl⟩⟩

/-- What holds of a split of a history is told by the position. -/
theorem exists_split_iff {P : History → Occurrence × World → Prop} :
    (∃ pre x post, h = pre ++ x :: post ∧ P pre x) ↔ ∃ i : Fin h.length, P (h.take i) h[i] := by
  constructor
  · rintro ⟨pre, x, post, rfl, hP⟩
    exact ⟨⟨pre.length, by simp⟩, by simpa using hP⟩
  · rintro ⟨i, hP⟩
    refine ⟨h.take i, h[i], h.drop (i + 1), ?_, hP⟩
    rw [Fin.getElem_fin, ← List.drop_eq_getElem_cons, List.take_append_drop]

/-- A recovery after the claim of a job, by its place in the history. -/
theorem recoveredSince_iff : RecoveredSince j h ↔
    ∃ i : Fin h.length, h[i].1.recovers = true ∧ j ∈ claimedJobs (h.take i) := by
  refine Iff.trans ?_ (exists_split_iff (P := fun pre x => x.1.recovers = true ∧ j ∈ claimedJobs pre))
  constructor
  · rintro ⟨pre, post, w, s, rfl, hj⟩
    exact ⟨pre, (.recover w, s), post, rfl, rfl, hj⟩
  · rintro ⟨pre, ⟨o, s⟩, post, rfl, ho, hj⟩
    cases o with
    | recover w => exact ⟨pre, post, w, s, rfl, hj⟩
    | _ => cases ho

/-- That no recovery comes between can be checked at each completion. -/
theorem undisturbed_iff : Undisturbed h ↔
    ∀ i : Fin h.length, ∀ j ∈ h[i].1.ends.toList, ¬RecoveredSince j (h.take i) := by
  have hsplit := exists_split_iff (h := h) (P := fun pre x => ∃ j ∈ x.1.ends.toList, RecoveredSince j pre)
  constructor
  · intro hh i j hj hsince
    obtain ⟨pre, ⟨o, s⟩, post, heq, j, ho, hsince⟩ := hsplit.mpr ⟨i, j, hj, hsince⟩
    exact hh pre o s post j heq (by simpa using ho) hsince
  · intro hall pre o s post j heq ho hsince
    obtain ⟨i, j, hj, hsince⟩ := hsplit.mp ⟨pre, (o, s), post, heq, j, by simp [ho], hsince⟩
    exact hall i j hj hsince

instance : Decidable (RecoveredSince j h) := decidable_of_iff' _ recoveredSince_iff

instance : Decidable (Undisturbed h) := decidable_of_iff' _ undisturbed_iff

end Histories

section Runs

variable [Unicode] {allowed : Policy} {s₀ : World} {h : History} {S : System}

/-- **No job is ended twice**, whatever the policy. -/
theorem Run.ended_once (hrun : Run allowed s₀ h S) : (endedJobs h).Nodup := by
  refine (hrun.induct (M := fun h _ => (endedJobs h).Nodup) ending_holds (by simp [endedJobs]) ?_).2
  intro h S o S' hrun hs _ ih
  rw [endedJobs_concat]
  cases ho : o.ends with
  | none => simpa using ih
  | some j =>
    obtain ⟨w, found, new, rfl⟩ := Occurrence.eq_of_ends ho
    obtain ⟨cfg, p, tr, job, hw, hi, -, -, hG, -⟩ := hs.within rfl rfl
    refine ih.append (List.nodup_singleton j) (List.disjoint_singleton.mpr fun hj => ?_)
    obtain ⟨found', new', hmem⟩ := finished_of_mem_endedJobs hj
    rw [hrun.jobEvents_eq hw hi] at hmem
    exact (hG found new rfl).1 ⟨found', new', (mem_eventsOf.mp hmem).1⟩

/-- **What a completion finds**: its job is running, or it is interrupted and a worker has
recovered the jobs since the claim. -/
theorem Stepped.completes {S' : System} {o : Occurrence} {j : JobId} (hrun : Run allowed s₀ h S)
    (hs : Stepped ending S o S') (ho : o.ends = some j) :
    (S.world.status j = some .running ∧ ¬RecoveredSince j h) ∨
      S.world.status j = some .interrupted ∧ RecoveredSince j h := by
  obtain ⟨w, found, new, rfl⟩ := Occurrence.eq_of_ends ho
  obtain ⟨cfg, p, tr, job, -, -, hj, -, hG, -⟩ := hs.within rfl rfl
  obtain ⟨hrunning, hinterrupted⟩ := hrun.recoveredSince hj
  have hfound := (hG found new rfl).2
  rw [status_of_get hj, Option.some.injEq, Option.some.injEq] at hfound
  rw [status_of_get hj]
  rcases hfound with hr | hr
  · exact .inl ⟨congrArg some hr, (hrunning hr).2⟩
  · exact .inr ⟨congrArg some hr, hinterrupted hr⟩

/-- Where no worker recovers the jobs between a claim and the completion, the statuses move
forward step by step. -/
theorem Run.isChain_advances (hrun : Run allowed s₀ h S) (hh : Undisturbed h) :
    List.IsChain World.Advances (s₀ :: h.map Prod.snd) := by
  refine (hrun.induct (M := fun h _ => Undisturbed h → List.IsChain World.Advances
    (s₀ :: h.map Prod.snd)) ending_holds (fun _ _ => List.isChain_singleton _) ?_).2 hh
  intro h S o S' hrun hs _ ih hh
  have hold : Undisturbed h := fun pre o' s post j hsplit =>
    hh pre o' s (post ++ [(o, S'.world)]) j (by rw [hsplit]; simp)
  rw [List.map_append, List.map_cons, List.map_nil, ← List.cons_append]
  refine List.isChain_append.mpr ⟨ih hold, List.isChain_singleton _, ?_⟩
  intro s hlast s' hs'
  obtain rfl : S.world = s := by simpa [hrun.getLast] using hlast
  obtain rfl : S'.world = s' := by simpa using hs'
  refine hs.turn.advances fun j ho => ?_
  rcases hs.completes hrun ho with ⟨hr, -⟩ | ⟨-, hsince⟩
  · exact hr
  · exact absurd hsince (hh h o S'.world [] j rfl ho)

/-- **The law of the statuses holds of a run exactly if no worker recovers the jobs between the
claim of a job and its completion**, however many workers there are. -/
theorem Run.forward_iff (hrun : Run allowed s₀ h S) : Forward s₀ h ↔ Undisturbed h := by
  refine ⟨fun hforward pre o s post j hsplit ho hsince => ?_, fun hh => ?_⟩
  · subst hsplit
    obtain ⟨S₁, S₂, hrun₁, hs, -, rfl⟩ := hrun.stepped_of_split ending_holds
    obtain ⟨w, found, new, rfl⟩ := Occurrence.eq_of_ends ho
    -- the completion finds the job interrupted and leaves it with an outcome
    have hinterrupted : S₁.world.status j = some .interrupted := by
      rcases hs.completes hrun₁ ho with ⟨-, hnot⟩ | ⟨hi, -⟩
      · exact absurd hsince hnot
      · exact hi
    have hsteps := hforward.steps
    rw [List.map_append, List.map_cons, ← List.cons_append] at hsteps
    have hadvances : S₁.world.Advances S₂.world :=
      (List.isChain_append.mp hsteps).2.2 _ hrun₁.getLast _ rfl
    have hkept := hadvances.keepsInterrupted j hinterrupted
    obtain ⟨-, -, -, -, -, -, -, -, -, hworked⟩ := hs.within rfl rfl
    rcases hworked with hbusy | ⟨he, -⟩
    · obtain ⟨-, job, -, hj, -, -, rfl, hnew⟩ := (Effect.ended hbusy found new rfl).row
      obtain hi : job.status = .interrupted := by simpa [status_of_get hj] using hkept
      simp [hi, JobStatus.isOutcome] at hnew
    · cases he
  · have hsteps := hrun.isChain_advances hh
    exact ⟨hsteps, hrun.claims_nodup.1, List.isChain_iff_pairwise.mp <|
      hsteps.imp fun _ _ => World.Advances.keepsInterrupted⟩

end Runs

/-- A run to which the law applies: its worker recovers the jobs before it claims one, and no other
worker starts. -/
theorem forward_startingServer :
    ∃ h S, @Run .ascii anyPolicy World.installed h S ∧ S.world.status 1 = some .succeeded ∧
      Undisturbed h ∧ Forward World.installed h := by
  obtain ⟨h, S, hrun, hstatus, hh⟩ := @exists_run .ascii anyPolicy _
    (startingServer ++ [.work "a:1" smooth])
    (fun h S => S.world.status 1 = some .succeeded ∧ Undisturbed h) _ (by decide +kernel)
  exact ⟨h, S, hrun, hstatus, hh, (@Run.forward_iff .ascii _ _ h S hrun).mpr hh⟩

end System

end PalworldManager
