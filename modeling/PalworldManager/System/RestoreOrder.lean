/-
# The order of a restore

A restore (`restores/jobs.py`) puts another world in the place of the running one.  It does so
only once the backup has been validated, a preventive backup is on record and the server has
been stopped, in that order; it starts the server only once the world is in place, and it
succeeds only when the server came up and its log shows nothing critical since.  Where it fails
the row says whether the world is to be looked at, which it is from the stop on (`Orders`).

Each step of a restore, in any run, is in this order with the steps of the job before it
(`Run.restore_ordered`).
-/

import PalworldManager.System.LateCancel

namespace PalworldManager

open Effects Text
open Effects.Exec hiding bind ask

/-- The kinds of jobs that put another world in place. -/
def JobKind.restoresWorld : JobKind → Bool
  | .restore _ => true
  | _ => false

/-- The server has been stopped for job `j`. -/
def StopSucceeded (j : JobId) (tr : List Ev) : Prop :=
  ∃ timeout result, (.ask (j, .lifecycle .stop timeout) (.ok result) : Ev) ∈ tr ∧
    result.succeeded = true

/-- The call that validated the backup for job `j`. -/
def Validated (j : JobId) (e : Ev) : Prop :=
  ∃ id, e = .ask (j, .prepare id) (.ok ()) ∨ e = .ask (j, .prepareRemote id) (.ok ())

/-- The server came up with the world in place, and its log shows nothing critical since. -/
def CameUp [Unicode] (j : JobId) (tr : List Ev) : Prop :=
  ∃ now timeout start entries, start.succeeded = true ∧
    (∀ entry ∈ entries, now ≤ entry.occurredAt → isCriticalLog entry = false) ∧
    [.ask (j, .apply) (.ok ()), .ask (j, .now) now, .ask (j, .lifecycle .start timeout) (.ok start),
      .ask (j, .history 100) (.ok entries)].Sublist tr

/-- What the row of a restore says of a review. -/
def Job.Reviewed (b : Bool) (job : Job) : Prop :=
  job.data.lookup "destructive_started" = some (.bool b) ∧
    job.data.lookup "requires_manual_review" = some (.bool b)

/-- What a restore guarantees in each of its steps. -/
structure Orders [Unicode] (j : JobId) (tr : List Ev) (e : Ev) (s' : World) : Prop where
  applies : ∀ r, e = .ask (j, .apply) r → ∃ validation id timeout stop,
    Validated j validation ∧ stop.succeeded = true ∧
      [validation, .tx (.record j id), .ask (j, .lifecycle .stop timeout) (.ok stop)].Sublist tr
  starts : ∀ timeout r, e = .ask (j, .lifecycle .start timeout) r →
    (.ask (j, .apply) (.ok ()) : Ev) ∈ tr
  succeeds : ∀ found, e = .tx (.finish j found .succeeded) → CameUp j tr
  fails : ∀ found, e = .tx (.finish j found .failed) → ∃ job b, s'.jobs.get j = some job ∧
    job.Reviewed b ∧ (b = true ↔ StopSucceeded j tr) ∧ ∀ r, .ask (j, .apply) r ∈ tr → b = true

/-- The classes of steps that are no milestone of a restore. -/
def Mute (c : StepClass) : Prop := c ≠ .call ∧ c ≠ .server ∧ c ≠ .finish

instance Mute.decidable : DecidablePred Mute := fun _ => inferInstanceAs (Decidable (_ ∧ _))

/-- The local variables agree on whether the world is being replaced. -/
def sameStarted (ℓ ℓ' : RestoreLocals) : Prop := ℓ.destructiveStarted = ℓ'.destructiveStarted

instance : IsPreorder RestoreLocals sameStarted where
  refl _ := rfl
  trans _ _ _ h h' := Eq.trans h h'

/-- The milestones passed, and whether the world is being replaced. -/
structure Phase (j : JobId) (milestones : List Ev) (b : Bool) (tr : List Ev) : Prop where
  passed : milestones.Sublist tr
  started : b = true ↔ StopSucceeded j tr
  applied : ∀ r, .ask (j, .apply) r ∈ tr → b = true

/-- No milestone has been passed. -/
def Unbegun (tr : List Ev) : Prop := ∀ e ∈ tr, Mute (stepClass e)

section Rounds

variable {α β : Type} {j : JobId} {s s' : World} {e : Ev} {tr passed : List Ev} {b : Bool}
  {ℓ : RestoreLocals} {request : RestoreRequest}

/-- A step that does not stop the server. -/
theorem stopSucceeded_concat
    (h : ∀ timeout result, e = .ask (j, .lifecycle .stop timeout) (.ok result) →
      result.succeeded = false) :
    StopSucceeded j (tr ++ [e]) ↔ StopSucceeded j tr := by
  constructor
  · rintro ⟨timeout, result, hmem, hsucceeded⟩
    rcases List.mem_append.mp hmem with hmem | hmem
    · exact ⟨timeout, result, hmem, hsucceeded⟩
    · simp [h timeout result (List.mem_singleton.mp hmem).symm] at hsucceeded
  · rintro ⟨timeout, result, hmem, hsucceeded⟩
    exact ⟨timeout, result, List.mem_append_left _ hmem, hsucceeded⟩

/-- One more step, which passes a milestone or none. -/
theorem Phase.concat (h : Phase j passed b tr)
    (he : ∀ timeout result, e = .ask (j, .lifecycle .stop timeout) (.ok result) →
      result.succeeded = false)
    (ha : ∀ r, e = .ask (j, .apply) r → b = true) : Phase j (passed ++ [e]) b (tr ++ [e]) := by
  refine ⟨h.passed.append (.refl _), h.started.trans (stopSucceeded_concat he).symm, fun r hmem => ?_⟩
  rcases List.mem_append.mp hmem with hmem | hmem
  · exact h.applied r hmem
  · exact ha r (List.mem_singleton.mp hmem).symm

/-- The milestones that were passed first. -/
theorem Phase.of_append {later : List Ev} (h : Phase j (passed ++ later) b tr) :
    Phase j passed b tr :=
  ⟨(List.sublist_append_left _ _).trans h.passed, h.started, h.applied⟩

/-- Without its milestones a phase says whether the world is being replaced. -/
theorem Phase.forget (h : Phase j passed b tr) : Phase j [] b tr :=
  ⟨List.nil_sublist _, h.started, h.applied⟩

/-- A mute step passes no milestone, and leaves those that were. -/
theorem Phase.mute (h : Phase j passed b tr) (he : Mute (stepClass e)) :
    Phase j passed b (tr ++ [e]) :=
  (h.concat (fun _ _ he' => absurd (he' ▸ rfl) he.2.1) fun _ he' => absurd (he' ▸ rfl) he.1).of_append

/-- A restore that has not begun is in its first phase. -/
theorem Unbegun.phase (h : Unbegun tr) : Phase j [] false tr := by
  refine ⟨List.nil_sublist _, iff_of_false Bool.false_ne_true ?_, fun r hmem => ?_⟩
  · rintro ⟨timeout, result, hmem, -⟩
    exact absurd rfl (h _ hmem).2.1
  · exact absurd rfl (h _ hmem).1

variable [Unicode]

/-- A mute step meets the guarantee. -/
theorem orders_of_mute (h : Mute (stepClass e)) : Orders j tr e s' where
  applies _ he := absurd (he ▸ rfl) h.1
  starts _ _ he := absurd (he ▸ rfl) h.1
  succeeds _ he := absurd (he ▸ rfl) h.2.2
  fails _ he := absurd (he ▸ rfl) h.2.2

/-- So does every call that neither applies the backup nor starts the server. -/
theorem orders_of_ask {c : Call} {r : Reply c} (h : c ≠ .apply)
    (h' : ∀ timeout, c ≠ .lifecycle .start timeout) : Orders j tr (.ask (j, c) r) s' where
  applies _ he := by cases he; exact absurd rfl h
  starts timeout _ he := by cases he; exact absurd rfl (h' timeout)
  succeeds _ he := by cases he
  fails _ he := by cases he

/-- What holds where a restore raises. -/
def stillPhased (j : JobId) : Exn → RestoreLocals → World → List Ev → Prop :=
  fun _ ℓ _ tr => Phase j [] ℓ.destructiveStarted tr

/-- A statement that is no milestone. -/
theorem wp_phase_bind {x : Py RestoreLocals α} {f : α → Py RestoreLocals β}
    {Q : β → RestoreLocals → World → List Ev → Prop} (hx : Keeps (Acts Mute j) sameStarted x)
    (h : Phase j passed ℓ.destructiveStarted tr)
    (hf : ∀ a ℓ s tr, Phase j passed ℓ.destructiveStarted tr →
      wp (Others j) (fun _ => Orders j) (f a) Q (stillPhased j) ℓ s tr) :
    wp (Others j) (fun _ => Orders j) (x >>= f) Q (stillPhased j) ℓ s tr :=
  wp_keeps_bind (I := fun _ tr => Phase j passed ℓ.destructiveStarted tr) hx (fun _ _ _ _ h => h)
    (fun _ _ _ _ h he => ⟨h.mute he.2, orders_of_mute he.2⟩) h
    (fun _ _ _ _ hv h => show Phase _ _ _ _ from hv ▸ h.forget)
    fun a ℓ' s tr hv h => hf a ℓ' s tr (hv ▸ h)

/-- A question whose answer the restore goes by. -/
theorem wp_phase_ask {c : Call} {f : Reply c → Py RestoreLocals β}
    {Q : β → RestoreLocals → World → List Ev → Prop} (hc : ∀ timeout, c ≠ .lifecycle .stop timeout)
    (ha : c = .apply → ℓ.destructiveStarted = true)
    (ho : ∀ r s, Orders j tr (.ask (j, c) r) s) (h : Phase j passed ℓ.destructiveStarted tr)
    (hf : ∀ r s, Phase j (passed ++ [.ask (j, c) r]) ℓ.destructiveStarted (tr ++ [.ask (j, c) r]) →
      wp (Others j) (fun _ => Orders j) (f r) Q (stillPhased j) ℓ s (tr ++ [.ask (j, c) r])) :
    wp (Others j) (fun _ => Orders j) (ask j c >>= f) Q (stillPhased j) ℓ s tr := by
  rw [wp_bind, ask, wp_ask]
  refine fun s₁ _ r => ⟨ho r s₁, hf r s₁ (h.concat (fun timeout result he => ?_) fun _ he => ?_)⟩
  · cases he
    exact absurd rfl (hc timeout)
  · cases he
    exact ha rfl

/-- An answer that may be an exception. -/
theorem wp_phase_ofReply {r : Except Fault α} {f : α → Py RestoreLocals β}
    {Q : β → RestoreLocals → World → List Ev → Prop} (h : Phase j passed ℓ.destructiveStarted tr)
    (hf : ∀ a, r = .ok a → wp (Others j) (fun _ => Orders j) (f a) Q (stillPhased j) ℓ s tr) :
    wp (Others j) (fun _ => Orders j) (ofReply r >>= f) Q (stillPhased j) ℓ s tr := by
  cases r with
  | ok a => exact (wp_bind ..).mpr ((wp_ofExcept_ok _).mpr (hf a rfl))
  | error e => exact (wp_bind ..).mpr ((wp_ofExcept_error _).mpr h.forget)

omit [Unicode] in
/-- A checkpoint is mute. -/
theorem keeps_mute_restoreCheckpoint {L : Type} {V : L → L → Prop} [IsPreorder L V] (step : String)
    (n : ℕ) (d : Bool) : Keeps (Acts Mute j) V (restoreCheckpoint j step n d : Py L Unit) :=
  keeps_restoreCheckpoint (by decide) (by decide) step n d

/-- **The validation** of the backup. -/
theorem wp_prepareRestore {driveService : Bool} {record : BackupRecord}
    (h : Phase j [] ℓ.destructiveStarted tr) :
    wp (Others j) (fun _ => Orders j) (prepareRestore driveService j request record)
      (fun _ ℓ _ tr => ∃ validation, Validated j validation ∧
        Phase j [validation] ℓ.destructiveStarted tr) (stillPhased j) ℓ s tr := by
  rw [prepareRestore]
  cases request.sourceLocation with
  | drive =>
    refine wp_phase_bind (keeps_raiseIf _ _) h fun _ ℓ s tr h => ?_
    refine wp_phase_bind (keeps_mute_restoreCheckpoint _ _ _) h fun _ ℓ s tr h => ?_
    refine wp_phase_bind (keeps_tryCatch (keeps_downloadTemporary (by decide) _ (keeps_pure _))
      fun e => ?_) h fun _ ℓ s tr h => ?_
    · split <;> exact keeps_raise _
    refine wp_phase_bind (keeps_mute_restoreCheckpoint _ _ _) h fun _ ℓ s tr h => ?_
    refine wp_phase_ask (by simp) (by simp) (fun _ _ => orders_of_ask (by simp) (by simp)) h fun r s h => ?_
    cases r with
    | ok _ => exact (wp_ofExcept_ok _).mpr ⟨_, ⟨_, .inr rfl⟩, h⟩
    | error e => exact (wp_ofExcept_error _).mpr h.forget
  | «local» =>
    refine wp_phase_bind (keeps_mute_restoreCheckpoint _ _ _) h fun _ ℓ s tr h => ?_
    refine wp_phase_ask (by simp) (by simp) (fun _ _ => orders_of_ask (by simp) (by simp)) h fun r s h => ?_
    cases r with
    | ok _ => exact (wp_ofExcept_ok _).mpr ⟨_, ⟨_, .inl rfl⟩, h⟩
    | error e => exact (wp_ofExcept_error _).mpr h.forget

/-- **The preventive backup** is on record where this returns. -/
theorem wp_makePreventiveBackup (h : Phase j passed ℓ.destructiveStarted tr) :
    wp (Others j) (fun _ => Orders j) (makePreventiveBackup j request)
      (fun _ ℓ _ tr => ∃ id, Phase j (passed ++ [.tx (.record j id)]) ℓ.destructiveStarted tr)
      (stillPhased j) ℓ s tr := by
  rw [makePreventiveBackup]
  refine wp_phase_bind (keeps_mute_restoreCheckpoint _ _ _) h fun _ ℓ s tr h => ?_
  refine wp_phase_bind (keeps_tryCatch (keeps_createBackup (by decide) (by decide) fun _ _ _ =>
    keeps_mute_restoreCheckpoint _ _ _) fun _ => keeps_raise _) h fun artifact ℓ s tr h => ?_
  refine wp_phase_bind (keeps_assign _ fun _ => rfl) h fun _ ℓ s tr h => ?_
  refine wp_phase_bind (keeps_flushArtifact (by decide) (by decide) _) h
    fun registered ℓ s tr h => ?_
  refine wp_phase_bind (keeps_assign _ fun _ => rfl) h fun _ ℓ s tr h => ?_
  refine wp_phase_bind (keeps_query (by decide) _) h fun retention ℓ s tr h => ?_
  refine wp_phase_bind (keeps_applyLocalRetention (by decide) _ _ _) h fun deleted ℓ s tr h => ?_
  rw [commitSession]
  refine wp_phase_bind (keeps_storage _ (by decide)) h fun _ ℓ s tr h => ?_
  rw [wp_session]
  exact fun s₁ _ => ⟨fun _ _ _ => ⟨orders_of_mute (show Mute .record by decide), _,
      h.concat (fun _ _ he => by cases he) fun _ he => by cases he⟩,
    fun _ _ => ⟨orders_of_mute (by decide), (h.mute (e := .tx .read) (by decide)).forget⟩⟩

/-- The end of a restore. -/
theorem wp_finishJob_orders {write : Job → Job} (h : Phase j passed ℓ.destructiveStarted tr)
    (ho : ∀ (s : World) job found, s.jobs.get j = some job →
      Orders j tr (.tx (.finish j found (write job).status)) (s.modifyJob j write)) :
    wp (Others j) (fun _ => Orders j) (finishJob j write : Py RestoreLocals Unit)
      (fun _ ℓ _ tr => Phase j [] ℓ.destructiveStarted tr) (stillPhased j) ℓ s tr := by
  rw [finishJob, wp_bind, wp_session]
  refine fun s₁ _ => ⟨fun p s' hp => ?_, fun _ _ =>
    ⟨orders_of_mute (by decide), (h.mute (e := .tx .read) (by decide)).forget⟩⟩
  obtain ⟨job, hj, hw⟩ := except_map_eq_ok.mp hp
  obtain ⟨rfl, rfl⟩ := Prod.mk.inj hw
  exact ⟨ho s₁ job _ (getOne_eq_ok hj),
    (wp_pure _).mpr (h.concat (fun _ _ he => by cases he) fun _ he => by cases he).forget⟩

/-- `fail_restore` writes both flags as the phase has them. -/
theorem wp_failRestore {category message : String} (h : Phase j [] ℓ.destructiveStarted tr) :
    wp (Others j) (fun _ => Orders j) (failRestore j request category message)
      (fun _ ℓ _ tr => Phase j [] ℓ.destructiveStarted tr) (stillPhased j) ℓ s tr := by
  rw [failRestore, wp_bind, wp_locals]
  refine wp_finishJob_orders h fun s job found hj => ⟨?_, ?_, ?_, fun _ _ => ?_⟩
  · exact fun _ he => by cases he
  · exact fun _ _ he => by cases he
  · exact fun _ he => by cases he
  · exact ⟨Job.failRestore request category message ℓ job, ℓ.destructiveStarted, by simp [hj],
      ⟨rfl, rfl⟩, h.started, h.applied⟩

/-- The handler of a restore, in whichever phase its body raised. -/
theorem wp_handleRestore {e : Exn} (h : Phase j [] ℓ.destructiveStarted tr) :
    wp (Others j) (fun _ => Orders j) (handleRestore j request e) (fun _ _ _ _ => True) (stillPhased j)
      ℓ s tr := by
  unfold handleRestore
  split
  · exact wp_mono (wp_failRestore h) (fun _ _ _ _ _ => trivial) fun _ _ _ _ h => h
  · rw [wp_bind, wp_locals]
    refine wp_phase_bind (keeps_removePreventive (by decide) _ _) h fun _ ℓ s tr h => ?_
    rw [wp_bind]
    exact wp_mono (wp_failRestore h) (fun _ _ _ _ h => (wp_raise _).mpr h) fun _ _ _ _ h => h

/-- **The other world** is put in place, and the server comes up with it. -/
theorem wp_applyRestore {validation : Ev} {id : ℕ} (hvalidated : Validated j validation)
    (h : Phase j [validation, .tx (.record j id)] ℓ.destructiveStarted tr) :
    wp (Others j) (fun _ => Orders j) (applyRestore j request)
      (fun _ ℓ _ tr => CameUp j tr ∧ Phase j [] ℓ.destructiveStarted tr) (stillPhased j) ℓ s tr := by
  rw [applyRestore]
  refine wp_phase_bind (keeps_mute_restoreCheckpoint _ _ _) h fun _ ℓ s tr h => ?_
  rw [wp_bind, ask, wp_ask]
  refine fun s₁ _ r => ⟨orders_of_ask (by simp) (by simp), ?_⟩
  cases r with
  | error e =>
    refine (wp_bind ..).mpr ((wp_ofExcept_error _).mpr ?_)
    exact (h.concat (fun _ _ he => by cases he) fun _ he => by cases he).forget
  | ok stop =>
    refine (wp_bind ..).mpr ((wp_ofExcept_ok _).mpr ?_)
    rw [wp_bind, wp_raiseIf]
    refine ⟨fun hfailed => ?_, fun hstopped => ?_⟩
    · exact (h.concat (fun _ _ he => by cases he; exact hfailed) fun _ he => by cases he).forget
    have hsucceeded : stop.succeeded = true := by simpa using hstopped
    rw [wp_bind, wp_assign]
    have hdestructive : Phase j
        ([validation, .tx (.record j id)] ++ [.ask (j, .lifecycle .stop request.stopTimeout) (.ok stop)])
        true (tr ++ [.ask (j, .lifecycle .stop request.stopTimeout) (.ok stop)]) :=
      ⟨h.passed.append (.refl _), iff_of_true rfl ⟨request.stopTimeout, stop, by simp, hsucceeded⟩,
        fun _ _ => rfl⟩
    refine wp_phase_bind (keeps_mute_restoreCheckpoint _ _ _) hdestructive fun _ ℓ s tr h => ?_
    have hstopping : StopSucceeded j tr := ⟨request.stopTimeout, stop, h.passed.subset (by simp), hsucceeded⟩
    refine wp_phase_ask (by simp) (fun _ => h.started.mpr hstopping)
      (fun _ _ => ⟨?_, ?_, ?_, ?_⟩) h.forget fun r s h => ?_
    · exact fun _ _ => ⟨_, _, _, _, hvalidated, hsucceeded, h.passed⟩
    · exact fun _ _ he => by cases he
    · exact fun _ he => by cases he
    · exact fun _ he => by cases he
    refine wp_phase_ofReply h fun _ hr => ?_
    subst hr
    refine wp_phase_bind (keeps_mute_restoreCheckpoint _ _ _) h fun _ ℓ s tr h => ?_
    refine wp_phase_ask (by simp) (by simp) (fun _ _ => orders_of_ask (by simp) (by simp)) h
      fun startRequestedAt s h => ?_
    refine wp_phase_ask (by simp) (by simp) (fun _ _ => ⟨?_, ?_, ?_, ?_⟩) h fun r s h => ?_
    · exact fun _ he => by cases he
    · exact fun _ _ _ => h.passed.subset (by simp)
    · exact fun _ he => by cases he
    · exact fun _ he => by cases he
    refine wp_phase_ofReply h fun start hr => ?_
    subst hr
    rw [wp_bind, wp_raiseIf]
    refine ⟨fun _ => h.forget, fun hstarted => ?_⟩
    refine wp_phase_bind (keeps_mute_restoreCheckpoint _ _ _) h fun _ ℓ s tr h => ?_
    rw [verifyNoCriticalLogs, wp_bind, wp_tryCatch, wp_bind, ask, wp_ask]
    refine fun s₁ _ r => ⟨orders_of_ask (by simp) (by simp), ?_⟩
    have hread := h.concat (e := .ask (j, .history 100) r) (fun _ _ he => by cases he)
      fun _ he => by cases he
    cases r with
    | error e =>
      refine (wp_ofExcept_error _).mpr ?_
      rw [wp_ite]
      exact ⟨fun _ => (wp_raise _).mpr hread.forget, fun _ => (wp_raise _).mpr hread.forget⟩
    | ok entries =>
      refine (wp_ofExcept_ok _).mpr ?_
      rw [wp_raiseIf]
      refine ⟨fun _ => hread.forget, fun hquiet => ⟨?_, hread.forget⟩⟩
      refine ⟨startRequestedAt, _, start, entries, by simpa using hstarted, ?_, hread.passed⟩
      simpa using hquiet

/-- The body of a restore passes its milestones in order. -/
theorem wp_runRestore {driveService : Bool} (h : Phase j [] ℓ.destructiveStarted tr) :
    wp (Others j) (fun _ => Orders j) (runRestore driveService j request) (fun _ _ _ _ => True)
      (stillPhased j) ℓ s tr := by
  rw [runRestore]
  refine wp_phase_bind (keeps_query (by decide) _) h fun record ℓ s tr h => ?_
  rw [wp_bind]
  refine wp_mono (wp_prepareRestore h) (fun _ ℓ s tr h => ?_) fun _ _ _ _ h => h
  obtain ⟨validation, hvalidated, h⟩ := h
  rw [wp_bind]
  refine wp_mono (wp_makePreventiveBackup h) (fun _ ℓ s tr h => ?_) fun _ _ _ _ h => h
  obtain ⟨id, h⟩ := h
  rw [wp_bind]
  refine wp_mono (wp_applyRestore hvalidated h) (fun _ ℓ s tr h => ?_) fun _ _ _ _ h => h
  obtain ⟨hup, h⟩ := h
  rw [completeRestore, wp_bind, wp_locals]
  refine wp_mono (wp_finishJob_orders h fun s job found hj => ⟨?_, ?_, fun _ _ => hup, ?_⟩)
    (fun _ _ _ _ _ => trivial) fun _ _ _ _ h => h
  · exact fun _ he => by cases he
  · exact fun _ _ he => by cases he
  · exact fun _ he => by cases he

variable {L : Type} {ℓ : L} {kind : JobKind}

/-- **The executor** of a restore. -/
theorem wp_executor_orders (cfg : WorkerConfig) (hkind : kind.restoresWorld = true)
    (h : Unbegun tr) :
    wp (Others j) (fun _ => Orders j) (executor cfg j kind : Py L Unit) (fun _ _ _ _ => True)
      (fun _ _ _ _ => True) ℓ s tr := by
  cases kind with
  | restore location =>
    rw [executor, executeRestore, wp_scope]
    refine wp_mono (Q := fun _ _ _ _ => True) (E := stillPhased j) ?_ (fun _ _ _ _ h => h)
      fun _ _ _ _ _ => trivial
    refine wp_phase_bind (keeps_query (by decide) _) h.phase fun request ℓ s tr h => ?_
    rw [wp_tryCatch]
    exact wp_mono (wp_runRestore h) (fun _ _ _ _ h => h) fun _ _ _ _ h => wp_handleRestore h
  | _ => cases hkind

/-- **One execution**, from the opening of its log to the release of the lock. -/
theorem wp_processClaimed_orders (cfg : WorkerConfig) (hkind : kind.restoresWorld = true)
    (h : Unbegun tr) :
    wp (Others j) (fun _ => Orders j) (processClaimed cfg j kind : Py L Unit) (fun _ _ _ _ => True)
      (fun _ _ _ _ => True) ℓ s tr := by
  have hnone : (fallback j kind : Py L Unit) = pure () := by
    cases kind <;> first | rfl | cases hkind
  refine wp_processClaimed_frame (I := fun _ tr => Unbegun tr) (X := fun _ _ => True) ?_
    (fun _ _ _ _ h => h) ?_ (fun _ _ _ _ h => h) (fun _ _ _ _ h _ => h) (fun _ _ _ => trivial)
    (fun _ _ _ h => wp_executor_orders cfg hkind h) ?_ h
  · rintro s tr e s' (he | he) <;> exact orders_of_mute (by rw [he]; decide)
  · intro s tr e s' h he e' hmem
    rcases List.mem_append.mp hmem with hmem | hmem
    · exact h e' hmem
    · rw [List.mem_singleton.mp hmem, show stepClass e = .routine from he.2]
      decide
  · exact fun ℓ s tr _ => hnone ▸ (wp_pure _).mpr trivial

end Rounds

/-- The contract of the restores. -/
def ordering [Unicode] : Contract where
  guarantee j kind _ tr e s' := kind.restoresWorld = true → Orders j tr e s'
  post _ _ _ _ _ := True

/-- The contract holds from the claim of any job on. -/
theorem ordering_holds [Unicode] : ordering.Holds where
  stable _ _ _ _ _ _ _ _ := trivial
  safe cfg j kind s log _ := claimedRound_safe fun hrestores => by
    have hunbegun : Unbegun (claimTrace log j) := by
      intro e hmem
      obtain rfl | rfl : e = .ask (0, .createLog) log ∨ e = .tx (.claim (some j)) := by
        simpa [claimTrace] using hmem
      · exact show Mute .routine by decide
      · exact show Mute .round by decide
    exact wp_processClaimed_orders cfg hrestores hunbegun

section Events

variable {j : JobId} {s s' : World} {e : Ev} {tr evs : List Ev}

/-- What stands in a trace in some order stands so in the events of its job. -/
theorem sublist_eventsOf (h : evs.Sublist tr) (hevs : ∀ e ∈ evs, jobOf e = some j) :
    evs.Sublist (eventsOf j tr) := by
  have hfilter : eventsOf j evs = evs := List.filter_eq_self.mpr fun e he => by simp [hevs e he]
  exact hfilter ▸ h.filter _

/-- The server is stopped for a job in its own events. -/
theorem stopSucceeded_eventsOf : StopSucceeded j (eventsOf j tr) ↔ StopSucceeded j tr := by
  simp [StopSucceeded, mem_eventsOf, jobOf]

/-- The validation is a step of its job. -/
theorem Validated.jobOf (h : Validated j e) : jobOf e = some j := by
  obtain ⟨id, rfl | rfl⟩ := h <;> simp [PalworldManager.jobOf]

/-- What a step guarantees rests on the events of its job alone. -/
theorem Orders.eventsOf [Unicode] (h : Orders j tr e s') : Orders j (eventsOf j tr) e s' where
  applies r he := by
    obtain ⟨validation, id, timeout, stop, hvalidated, hsucceeded, hsublist⟩ := h.applies r he
    refine ⟨validation, id, timeout, stop, hvalidated, hsucceeded, sublist_eventsOf hsublist ?_⟩
    intro e he
    obtain rfl | rfl | rfl : e = validation ∨ e = .tx (.record j id) ∨
        e = .ask (j, .lifecycle .stop timeout) (.ok stop) := by simpa using he
    · exact hvalidated.jobOf
    · rfl
    · simp [jobOf]
  starts timeout r he := mem_eventsOf.mpr ⟨h.starts timeout r he, by simp [jobOf]⟩
  succeeds found he := by
    obtain ⟨now, timeout, start, entries, hsucceeded, hquiet, hsublist⟩ := h.succeeds found he
    refine ⟨now, timeout, start, entries, hsucceeded, hquiet, sublist_eventsOf hsublist ?_⟩
    simp [jobOf]
  fails found he := by
    obtain ⟨job, b, hj, hreviewed, hstarted, happlied⟩ := h.fails found he
    exact ⟨job, b, hj, hreviewed, hstarted.trans stopSucceeded_eventsOf.symm,
      fun r hmem => happlied r (mem_eventsOf.mp hmem).1⟩

end Events

namespace System

section Runs

variable {allowed : Policy} {s₀ s : World} {pre post : History} {S : System} {j : JobId}
  {w : WorkerId} {e : Ev} {job : Job}

/-- **The order of a restore**: each of its steps follows those that must come first. -/
theorem Run.restore_ordered [Unicode] (hrun : Run allowed s₀ (pre ++ (.work w e, s) :: post) S)
    (he : jobOf e = some j) (hj : S.world.jobs.get j = some job)
    (hkind : job.kind.restoresWorld = true) :
    Orders j (jobEvents j pre) e s := by
  obtain ⟨s₁, tr, hevents, hG⟩ := hrun.within_of_split ordering_holds he hj
  rw [hevents]
  exact (hG hkind).eventsOf

end Runs

/-- A completion that is found in a history, and what came before it. -/
theorem finish_of_any {h : History} {j : JobId} {status : JobStatus}
    (hany : h.any (endsOf j status) = true) :
    ∃ pre w found s post, h = pre ++ (.work w (.tx (.finish j found status)), s) :: post := by
  obtain ⟨⟨o, s⟩, hmem, hends⟩ := List.any_eq_true.mp hany
  obtain ⟨pre, post, rfl⟩ := List.append_of_mem hmem
  unfold endsOf at hends
  split at hends
  · rename_i w i found new s' heq
    obtain ⟨rfl, rfl⟩ := Prod.mk.inj heq
    obtain ⟨rfl, rfl⟩ : i = j ∧ new = status := by simpa using hends
    exact ⟨pre, w, found, s, post, rfl⟩
  · cases hends

/-- A restore that succeeds: the server had come up again after it. -/
theorem restore_ordered_succeeded :
    ∃ pre w found s post S job, @Run .ascii anyPolicy zonedWorld
        (pre ++ (.work w (.tx (.finish 2 found .succeeded)), s) :: post) S ∧
      S.world.jobs.get 2 = some job ∧ job.kind.restoresWorld = true ∧
      @CameUp .ascii 2 (jobEvents 2 pre) := by
  obtain ⟨h, S, hrun, -, -, hrestores, hany⟩ := exists_backup_and_restore
  obtain ⟨job, hj, hlocal⟩ := (Option.any_eq_true ..).mp hrestores
  have hkind : job.kind.restoresWorld = true := by rw [beq_iff_eq.mp hlocal]; rfl
  obtain ⟨pre, w, found, s, post, rfl⟩ := finish_of_any hany
  have horders :=
    @Run.restore_ordered anyPolicy zonedWorld s pre post S 2 w _ job .ascii hrun rfl hj hkind
  exact ⟨pre, w, found, s, post, S, job, hrun, hj, hkind,
    @Orders.succeeds .ascii _ _ _ _ horders found rfl⟩

end System

end PalworldManager
