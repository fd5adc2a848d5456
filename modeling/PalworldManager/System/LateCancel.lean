/-
# A cancellation that comes too late

A local backup and the jobs of Google Drive (`backups/jobs.py`, `backups/drive_jobs.py`) look
for a cancellation at their checkpoints.  A checkpoint reads the row and writes it later,
and its write turns cancellation off whether or not one was accepted in between.  The last
checkpoint of each of these jobs turns cancellation off, so a job that succeeds had an
accepted cancellation if and only if one was pending at that write
(`Run.cancelAccepted_iff_pending`).

`Closes` says of the steps of a round what the last checkpoint is when the job succeeds,
and that none follows the end of the job.
-/

import PalworldManager.System.ActiveJob
import PalworldManager.System.Sealing
import PalworldManager.System.Settling

namespace PalworldManager

open Effects Text
open Effects.Exec hiding bind ask

/-- The write of a checkpoint of job `j`: whether the job may be cancelled after it, and
whether a cancellation was pending. -/
def checkpointWrite (j : JobId) : Ev → Option (Bool × Bool)
  | .tx (.checkpoint i cancellable pending) => if i = j then some (cancellable, pending) else none
  | _ => none

/-- The last checkpoint of job `j`. -/
def lastCheckpoint (j : JobId) (tr : List Ev) : Option (Bool × Bool) :=
  (tr.filterMap (checkpointWrite j)).getLast?

/-- The kinds of jobs that look for a cancellation at their checkpoints. -/
def JobKind.stopsBetween : JobKind → Bool
  | .localBackup | .drive _ => true
  | _ => false

/-- What a round of such a job guarantees in each of its steps. -/
structure Closes (j : JobId) (s : World) (tr : List Ev) (e : Ev) (_ : World) : Prop where
  succeeds : ∀ found, e = .tx (.finish j found .succeeded) →
    ∃ job, s.jobs.get j = some job ∧ lastCheckpoint j tr = some (false, job.cancelRequested)
  ends : Finished j tr → checkpointWrite j e = none

/-- A step that is no checkpoint, and does not end the job as succeeded. -/
def Mild (j : JobId) (_ : World) (e : Ev) (_ : World) : Prop :=
  checkpointWrite j e = none ∧ ∀ found, e ≠ .tx (.finish j found .succeeded)

/-- The classes of steps that do not end a job. -/
def Ongoing (c : StepClass) : Prop := c ≠ .finish

/-- The classes of steps between the last checkpoint and the end. -/
def Plain (c : StepClass) : Prop := c ≠ .finish ∧ c ≠ .opening ∧ c ≠ .closing

instance Ongoing.decidable : DecidablePred Ongoing := fun _ => inferInstanceAs (Decidable (_ ≠ _))

instance Plain.decidable : DecidablePred Plain := fun _ => inferInstanceAs (Decidable (_ ∧ _))

/-- The row of a claimed job that has not ended in its round. -/
structure Started (j : JobId) (s : World) (tr : List Ev) : Prop where
  row : s.Claimed j
  unfinished : ¬Finished j tr

/-- The last checkpoint has turned cancellation off. -/
structure Closed (j : JobId) (s : World) (tr : List Ev) : Prop where
  row : ∃ job, s.jobs.get j = some job ∧ job.status ≠ .pending ∧ job.isCancellable = false ∧
    lastCheckpoint j tr = some (false, job.cancelRequested)
  unfinished : ¬Finished j tr

section Rounds

variable {L α β : Type} {V : L → L → Prop} {j : JobId} {s s' : World} {e : Ev} {tr : List Ev}
  {ℓ : L}

/-- A step that writes no checkpoint leaves the last one. -/
theorem lastCheckpoint_concat (h : checkpointWrite j e = none) :
    lastCheckpoint j (tr ++ [e]) = lastCheckpoint j tr := by
  simp [lastCheckpoint, List.filterMap_append, h]

/-- A checkpoint is the last one from then on. -/
theorem lastCheckpoint_concat_of_some {w : Bool × Bool} (h : checkpointWrite j e = some w) :
    lastCheckpoint j (tr ++ [e]) = some w := by
  simp [lastCheckpoint, List.filterMap_append, h]

/-- The checkpoints of a job are events of the job. -/
theorem lastCheckpoint_eventsOf : lastCheckpoint j (eventsOf j tr) = lastCheckpoint j tr := by
  rw [lastCheckpoint, eventsOf, List.filterMap_filter]
  refine congrArg List.getLast? (List.filterMap_congr fun e _ => ?_)
  cases e with
  | ask a r => simp [checkpointWrite]
  | tx l =>
    cases l with
    | checkpoint i c p => by_cases hi : i = j <;> simp [checkpointWrite, jobOf, Label.job, hi]
    | _ => simp [checkpointWrite]

/-- Only a checkpoint writes one. -/
theorem checkpointWrite_of_class (h : stepClass e ≠ .opening) (h' : stepClass e ≠ .closing) :
    checkpointWrite j e = none := by
  cases e with
  | ask a r => rfl
  | tx l =>
    cases l with
    | checkpoint i c p =>
      cases c with
      | false => exact absurd rfl h'
      | true => exact absurd rfl h
    | _ => rfl

/-- Only a completion ends a job. -/
theorem ne_finish_of_class (h : stepClass e ≠ .finish) (found new : JobStatus) :
    e ≠ .tx (.finish j found new) := fun he => h (he ▸ rfl)

/-- A job that no completion ends was ended before. -/
theorem Finished.of_concat (h : Finished j (tr ++ [e])) (he : stepClass e ≠ .finish) :
    Finished j tr := by
  obtain ⟨found, new, hmem⟩ := h
  rcases List.mem_append.mp hmem with hmem | hmem
  · exact ⟨found, new, hmem⟩
  · exact absurd (List.mem_singleton.mp hmem).symm (ne_finish_of_class he found new)

/-- A plain step is mild. -/
theorem mild_of_plain (h : Plain (stepClass e)) : Mild j s e s' :=
  ⟨checkpointWrite_of_class h.2.1 h.2.2, fun found => ne_finish_of_class h.1 found _⟩

/-- A mild step meets the guarantee. -/
theorem closes_of_mild (h : Mild j s e s') : Closes j s tr e s' :=
  ⟨fun found he => absurd he (h.2 found), fun _ => h.1⟩

/-- So does every step of a job that has not ended, but its completion. -/
theorem closes_of_unfinished (h : ¬Finished j tr) (he : stepClass e ≠ .finish) :
    Closes j s tr e s' :=
  ⟨fun _ he' => absurd he' (ne_finish_of_class he _ _), fun hf => absurd hf h⟩

/-- The other parties leave a job claimed. -/
theorem Started.others (h : Started j s tr) (ho : Others j s s') : Started j s' tr :=
  ⟨claimed_of_others ho h.row, h.unfinished⟩

/-- A step that does not end the job. -/
theorem Started.acts (h : Started j s tr) (he : Acts Ongoing j s e s') :
    Started j s' (tr ++ [e]) :=
  ⟨claimed_of_worked (.inl he.1) h.row, fun hf => h.unfinished (hf.of_concat he.2)⟩

/-- A row that accepts no cancellation keeps the one it has. -/
theorem Closed.others (h : Closed j s tr) (ho : Others j s s') : Closed j s' tr := by
  obtain ⟨⟨job, hj, hnot, hcancellable, hlast⟩, hf⟩ := h
  obtain ⟨job', hj', ht⟩ := ho job hj hnot
  have hrequested : job'.cancelRequested = job.cancelRequested := by
    refine Bool.eq_iff_iff.mpr ⟨fun h => ?_, ht.requested⟩
    rcases ht.accepted h with h | h
    · exact h
    · simp [hcancellable] at h
  refine ⟨⟨job', hj', ht.not_pending hnot, Bool.eq_false_iff.mpr fun h => ?_, ?_⟩, hf⟩
  · simpa [hcancellable] using ht.cancellable h
  · rw [hrequested, hlast]

/-- After the last checkpoint, plain steps leave it the last. -/
theorem Closed.acts (h : Closed j s tr) (he : Acts Plain j s e s') : Closed j s' (tr ++ [e]) := by
  obtain ⟨⟨job, hj, hnot, hcancellable, hlast⟩, hf⟩ := h
  obtain ⟨job', hj', hkept, hstatus⟩ := (he.1.progress he.2.1).row job hj
  refine ⟨⟨job', hj', hstatus ▸ hnot, Bool.eq_false_iff.mpr fun h => ?_, ?_⟩,
    fun h => hf (h.of_concat he.2.1)⟩
  · rcases hkept.cancellable h with h | h
    · simp [hcancellable] at h
    · exact he.2.2.1 h
  · rw [lastCheckpoint_concat (checkpointWrite_of_class he.2.2.1 he.2.2.2), hkept.cancelRequested,
      hlast]

/-- A statement that is mild wherever it stands. -/
theorem wp_mild {x : Py L α} (hx : Keeps (Mild j) V x) :
    wp (Others j) (Closes j) x (fun _ _ _ _ => True) (fun _ _ _ _ => True) ℓ s tr :=
  wp_mono (wp_keeps (I := fun _ _ => True) hx (fun _ _ _ _ h => h)
    (fun _ _ _ _ _ he => ⟨trivial, closes_of_mild he⟩) trivial) (fun _ _ _ _ _ => trivial)
    fun _ _ _ _ _ => trivial

/-- A body of plain steps is mild. -/
theorem keeps_mild {x : Py L α} (hx : Keeps (Acts Plain j) V x) : Keeps (Mild j) V x :=
  hx.mono fun _ _ _ h => mild_of_plain h.2

/-- So is a completion that is no success. -/
theorem keeps_mild_finishJob [Std.Refl V] [IsTrans L V] {write : Job → Job}
    (h : ∀ job, (write job).status ≠ .succeeded) :
    Keeps (Mild j) V (finishJob j write : Py L Unit) := by
  refine keeps_bind (keeps_bind (keeps_tx _ _ fun s => ?_) fun _ => keeps_ofExcept _)
    fun _ => keeps_pure _
  cases hj : s.jobs.get j with
  | none => simp [World.getOne, hj, Except.map, Mild, checkpointWrite]
  | some job => simp [World.getOne, hj, Except.map, Mild, checkpointWrite, h job]

/-- A statement before the end. -/
theorem wp_started_bind {x : Py L α} {f : α → Py L β} {Q : β → L → World → List Ev → Prop}
    (hx : Keeps (Acts Ongoing j) V x) (h : Started j s tr)
    (hf : ∀ a ℓ s tr, Started j s tr →
      wp (Others j) (Closes j) (f a) Q (fun _ _ _ _ => True) ℓ s tr) :
    wp (Others j) (Closes j) (x >>= f) Q (fun _ _ _ _ => True) ℓ s tr :=
  wp_keeps_bind (I := Started j) hx (fun _ _ _ ho h => h.others ho)
    (fun _ _ _ _ h he => ⟨h.acts he, closes_of_unfinished h.unfinished he.2⟩) h
    (fun _ _ _ _ _ _ => trivial) fun a ℓ' s tr _ h => hf a ℓ' s tr h

/-- A statement after the last checkpoint. -/
theorem wp_closed_bind {x : Py L α} {f : α → Py L β} {Q : β → L → World → List Ev → Prop}
    (hx : Keeps (Acts Plain j) V x) (h : Closed j s tr)
    (hf : ∀ a ℓ s tr, Closed j s tr →
      wp (Others j) (Closes j) (f a) Q (fun _ _ _ _ => True) ℓ s tr) :
    wp (Others j) (Closes j) (x >>= f) Q (fun _ _ _ _ => True) ℓ s tr :=
  wp_keeps_bind (I := Closed j) hx (fun _ _ _ ho h => h.others ho)
    (fun _ _ _ _ h he => ⟨h.acts he, closes_of_mild (mild_of_plain he.2)⟩) h
    (fun _ _ _ _ _ _ => trivial) fun a ℓ' s tr _ h => hf a ℓ' s tr h

/-- A checkpoint goes on only where it read a running job. -/
theorem readCheckpoint_eq_ok {cancelled : Exn} {read : Job}
    (h : readCheckpoint j cancelled s = .ok read) :
    s.jobs.get j = some read ∧ read.status = .running := by
  rw [readCheckpoint] at h
  obtain ⟨job, hj, h⟩ := except_bind_eq_ok.mp h
  split_ifs at h with hstatus
  obtain rfl : job = read := by simpa using h
  exact ⟨getOne_eq_ok hj, not_not.mp hstatus⟩

/-- A checkpoint does not end a job. -/
theorem ongoing_checkpoint (cancellable : Bool) : Ongoing (.checkpoint cancellable) := by
  cases cancellable <;> decide

/-- **The last checkpoint**: its write turns cancellation off, and says what was pending. -/
theorem wp_checkpoint_closing {cancelled : Exn} {step : String} {n : ℕ} {f : Job → Py L β}
    {Q : β → L → World → List Ev → Prop} (h : Started j s tr)
    (hf : ∀ a ℓ s tr, Closed j s tr →
      wp (Others j) (Closes j) (f a) Q (fun _ _ _ _ => True) ℓ s tr) :
    wp (Others j) (Closes j) (checkpoint j cancelled step n false >>= f) Q (fun _ _ _ _ => True)
      ℓ s tr := by
  rw [wp_bind, checkpoint, wp_bind, wp_tx]
  intro s₁ ho
  have h₁ := h.others ho
  have hguard : stepClass (.tx (.guard j false (readCheckpoint j cancelled s₁).isOk)) ≠ .finish :=
    ongoing_checkpoint false
  refine ⟨closes_of_unfinished h₁.unfinished hguard, ?_⟩
  rw [wp_bind, wp_ofExcept]
  refine ⟨fun read hread => ?_, fun _ _ => trivial⟩
  obtain ⟨hj, hrunning⟩ := readCheckpoint_eq_ok hread
  rw [wp_bind, wp_tx]
  intro s₂ ho₂
  have hunfinished :
      ¬Finished j (tr ++ [.tx (.guard j false (readCheckpoint j cancelled s₁).isOk)]) :=
    fun hf => h₁.unfinished (hf.of_concat hguard)
  refine ⟨closes_of_unfinished hunfinished (ongoing_checkpoint false), ?_⟩
  rw [wp_pure]
  obtain ⟨job, hj₂, ht⟩ := ho₂ read hj (by simp [hrunning])
  have hwrite :
      checkpointWrite j (.tx (.checkpoint j false ((s₂.jobs.get j).any Job.cancelRequested))) =
        some (false, job.cancelRequested) := by simp [checkpointWrite, hj₂]
  refine hf _ _ _ _ ⟨⟨read.checkpoint step n false job, by simp [hj₂], ?_, ?_, ?_⟩, ?_⟩
  · exact ht.not_pending (by simp [hrunning])
  · -- where the column was off already the write leaves it, and nobody turns it on meanwhile
    rw [Job.checkpoint]
    by_cases hc : read.isCancellable = false
    · rw [if_pos hc]
      exact Bool.eq_false_iff.mpr fun h => by simpa [hc] using ht.cancellable h
    · rw [if_neg hc]
  · exact lastCheckpoint_concat_of_some hwrite
  · exact fun hf => hunfinished (hf.of_concat (ongoing_checkpoint false))

/-- The last checkpoint, as a callback of the local backup. -/
theorem wp_backupCheckpoint_closing {step : String} {n : ℕ} {f : Unit → Py L β}
    {Q : β → L → World → List Ev → Prop} (h : Started j s tr)
    (hf : ∀ ℓ s tr, Closed j s tr →
      wp (Others j) (Closes j) (f ()) Q (fun _ _ _ _ => True) ℓ s tr) :
    wp (Others j) (Closes j) (backupCheckpoint j step n false >>= f) Q (fun _ _ _ _ => True)
      ℓ s tr := by
  rw [wp_bind, backupCheckpoint]
  exact wp_checkpoint_closing h fun _ ℓ s tr h => (wp_pure _).mpr (hf ℓ s tr h)

/-- The last checkpoint of a Drive job. -/
theorem wp_driveCheckpoint_closing {step : String} {n : ℕ} {f : Unit → Py L β}
    {Q : β → L → World → List Ev → Prop} (h : Started j s tr)
    (hf : ∀ ℓ s tr, Closed j s tr →
      wp (Others j) (Closes j) (f ()) Q (fun _ _ _ _ => True) ℓ s tr) :
    wp (Others j) (Closes j) (driveCheckpoint j step n false >>= f) Q (fun _ _ _ _ => True)
      ℓ s tr := by
  rw [wp_bind, driveCheckpoint]
  exact wp_checkpoint_closing h fun _ ℓ s tr h => (wp_pure _).mpr (hf ℓ s tr h)

/-- The session that ends a job. -/
theorem wp_finishing {f : World → Except Exn ((JobStatus × JobStatus) × World)}
    (h : Closed j s tr) :
    wp (Others j) (Closes j) (session f fun p => .finish j p.1 p.2 : Py L _) (fun _ _ _ _ => True)
      (fun _ _ _ _ => True) ℓ s tr := by
  rw [wp_session]
  refine fun s₁ ho => ?_
  obtain ⟨⟨job, hj, -, -, hlast⟩, hf⟩ := h.others ho
  exact ⟨fun _ _ _ => ⟨⟨fun _ _ => ⟨job, hj, hlast⟩, fun h => absurd h hf⟩, trivial⟩,
    fun _ _ => ⟨closes_of_mild (mild_of_plain (by decide)), trivial⟩⟩

/-- A completion after the last checkpoint, whichever its status. -/
theorem wp_finishJob_closes {write : Job → Job} (h : Closed j s tr) :
    wp (Others j) (Closes j) (finishJob j write : Py L Unit) (fun _ _ _ _ => True)
      (fun _ _ _ _ => True) ℓ s tr := by
  rw [finishJob, wp_bind]
  exact wp_mono (wp_finishing h) (fun _ _ _ _ _ => (wp_pure _).mpr trivial) fun _ _ _ _ h => h

section Executors

variable [IsPreorder L V]

/-- **The making of an archive** ends with the last checkpoint. -/
theorem wp_createBackup_closes {ℓ : L} (h : Started j s tr) :
    wp (Others j) (Closes j) (createBackup j (backupCheckpoint j) : Py L BackupArtifact)
      (fun _ _ s tr => Closed j s tr) (fun _ _ _ _ => True) ℓ s tr := by
  have hcheckpoint (step : String) (n : ℕ) (c : Bool) :
      Keeps (Acts Ongoing j) anyLocals (backupCheckpoint j step n c : Py Bool Unit) :=
    keeps_backupCheckpoint (ongoing_checkpoint c) step n
  have hstorage (op : StorageOp) : Keeps (Acts Plain j) anyLocals (storage j op : Py Bool Unit) :=
    keeps_storage op (by cases op <;> decide)
  have hstarted {α : Type} {x : Py Bool α} (hx : Keeps (Acts Plain j) anyLocals x) :
      Keeps (Acts Ongoing j) anyLocals x := keeps_acts_mono hx fun _ h => h.1
  rw [createBackup, wp_scope]
  refine wp_started_bind (V := anyLocals) (keeps_raiseIf _ _) h fun _ ℓ s tr h => ?_
  refine wp_started_bind (V := anyLocals) (keeps_ask _ (by decide)) h fun identity ℓ s tr h => ?_
  rw [createNamed]
  refine wp_started_bind (V := anyLocals) (keeps_raiseIf _ _) h fun _ ℓ s tr h => ?_
  refine wp_started_bind (hstarted (hstorage _)) h fun _ ℓ s tr h => ?_
  refine wp_started_bind (V := anyLocals) (keeps_validateControlledDirectory (by decide) _) h
    fun _ ℓ s tr h => ?_
  refine wp_started_bind (V := anyLocals) (keeps_validateControlledDirectory (by decide) _) h
    fun _ ℓ s tr h => ?_
  refine wp_started_bind (hstarted (hstorage _)) h fun _ ℓ s tr h => ?_
  rw [wp_tryCatch, createArchive]
  have hrescue {e : Exn} {ℓ : Bool} {s : World} {tr : List Ev} {path : String} :
      wp (Others j) (Closes j)
        (do
          let published ← Exec.locals
          if published then
            let _ ← removeManagedArtifact j .publication path
            Exec.raise e
          else
            Exec.raise e : Py Bool BackupArtifact)
        (fun _ _ s tr => Closed j s tr) (fun _ _ _ _ => True) ℓ s tr := by
    rw [wp_bind, wp_locals, wp_ite]
    refine ⟨fun _ => ?_, fun _ => (wp_raise _).mpr trivial⟩
    rw [wp_bind]
    exact wp_mono (wp_mild (keeps_mild (V := anyLocals) (keeps_removeManagedArtifact .publication
      (by decide) _ (show Plain .publish by decide)))) (fun _ _ _ _ _ => (wp_raise _).mpr trivial)
      fun _ _ _ _ h => h
  refine wp_mono (Q := fun _ _ s tr => Closed j s tr) (E := fun _ _ _ _ => True) ?_
    (fun _ _ _ _ h => h) fun _ _ _ _ _ => hrescue
  refine wp_started_bind (V := anyLocals) (keeps_stageArchive (by decide) hcheckpoint) h
    fun _ ℓ s tr h => ?_
  rw [publishArchive]
  refine wp_started_bind (hcheckpoint _ _ _) h fun _ ℓ s tr h => ?_
  refine wp_started_bind (V := anyLocals) (keeps_ask _ (by decide)) h fun _ ℓ s tr h => ?_
  refine wp_started_bind (V := anyLocals) (keeps_ofReply _) h fun manifestId ℓ s tr h => ?_
  refine wp_started_bind (V := anyLocals) (keeps_raiseIf _ _) h fun _ ℓ s tr h => ?_
  refine wp_started_bind (V := anyLocals) (keeps_ask _ (by decide)) h fun _ ℓ s tr h => ?_
  refine wp_started_bind (V := anyLocals) (keeps_ofReply _) h fun digest ℓ s tr h => ?_
  refine wp_started_bind (V := anyLocals) (keeps_ask _ (by decide)) h fun _ ℓ s tr h => ?_
  refine wp_started_bind (V := anyLocals) (keeps_ofReply _) h fun sizeBytes ℓ s tr h => ?_
  refine wp_backupCheckpoint_closing h fun ℓ s tr h => ?_
  refine wp_closed_bind (V := anyLocals) (keeps_destinationExists (by decide) _) h
    fun present ℓ s tr h => ?_
  refine wp_closed_bind (V := anyLocals) (keeps_raiseIf _ _) h fun _ ℓ s tr h => ?_
  refine wp_closed_bind (hstorage _) h fun _ ℓ s tr h => ?_
  refine wp_closed_bind (V := anyLocals) (keeps_publishLocal (by decide) _) h
    fun _ ℓ s tr h => ?_
  refine wp_closed_bind (hstorage _) h fun _ ℓ s tr h => ?_
  refine wp_closed_bind (V := anyLocals) (keeps_assign _ fun _ => trivial) h fun _ ℓ s tr h => ?_
  refine wp_closed_bind (V := anyLocals) (keeps_ask _ (by decide)) h fun _ ℓ s tr h => ?_
  refine wp_closed_bind (V := anyLocals) (keeps_ofReply _) h fun _ ℓ s tr h => ?_
  refine wp_closed_bind (V := anyLocals) (keeps_ask _ (by decide)) h fun _ ℓ s tr h => ?_
  refine wp_closed_bind (V := anyLocals) (keeps_ofReply _) h fun _ ℓ s tr h => ?_
  refine wp_closed_bind (V := anyLocals) (keeps_raiseIf _ _) h fun _ ℓ s tr h => ?_
  exact (wp_pure _).mpr h

/-- **The local backup** ends past its last checkpoint. -/
theorem wp_runLocalBackup_closes {automatic : Bool} {trigger : String} {ℓ : Option BackupArtifact}
    (h : Started j s tr) :
    wp (Others j) (Closes j) (runLocalBackup automatic j trigger) (fun _ _ _ _ => True)
      (fun _ _ _ _ => True) ℓ s tr := by
  rw [runLocalBackup, wp_bind]
  refine wp_mono (wp_createBackup_closes h) (fun artifact ℓ s tr h => ?_) fun _ _ _ _ h => h
  refine wp_closed_bind (V := anyLocals) (keeps_assign _ fun _ => trivial) h fun _ ℓ s tr h => ?_
  refine wp_closed_bind (V := anyLocals) (keeps_flushArtifact (by decide)
    (by decide) _) h fun registered ℓ s tr h => ?_
  refine wp_closed_bind (V := anyLocals) (keeps_query (by decide) _) h
    fun retention ℓ s tr h => ?_
  refine wp_closed_bind (V := anyLocals) (keeps_applyLocalRetention (by decide) _ _ _) h
    fun deleted ℓ s tr h => ?_
  rw [wp_bind, commitSession]
  refine wp_closed_bind (V := anyLocals) (keeps_storage _ (by decide)) h
    fun _ ℓ s tr h => ?_
  exact wp_mono (wp_finishing h) (fun _ _ _ _ _ => (wp_pure _).mpr trivial) fun _ _ _ _ h => h

/-- The handler of a local backup ends it in no success. -/
theorem keeps_mild_handleLocalBackup (e : Exn) :
    Keeps (Mild j) anyLocals (handleLocalBackup j e) := by
  cases e with
  | backupCancelled => exact keeps_mild_finishJob fun _ => by simp [Job.finishFailed]
  | _ =>
    refine keeps_bind keeps_locals fun ℓ => keeps_bind
      (keeps_mild (keeps_removeUnregistered (by decide) _)) fun _ => ?_
    exact keeps_bind (keeps_mild_finishJob fun _ => by simp [Job.finishFailed])
      fun _ => keeps_raise _

/-- **An upload** ends past its last checkpoint. -/
theorem wp_executeDriveUpload_closes {result : Dict} (h : Started j s tr) :
    wp (Others j) (Closes j) (executeDriveUpload j result : Py L Unit) (fun _ _ _ _ => True)
      (fun _ _ _ _ => True) ℓ s tr := by
  have hcheckpoint (step : String) (n : ℕ) :
      Keeps (Acts Ongoing j) anyLocals (driveCheckpoint j step n true : Py L Unit) :=
    keeps_driveCheckpoint (by decide) step n
  rw [executeDriveUpload]
  refine wp_started_bind (V := anyLocals) (keeps_ofExcept _) h fun recordId ℓ s tr h => ?_
  refine wp_started_bind (hcheckpoint _ _) h fun _ ℓ s tr h => ?_
  refine wp_started_bind (V := anyLocals) (keeps_query (by decide) _) h fun required ℓ s tr h => ?_
  refine wp_started_bind (hcheckpoint _ _) h fun _ ℓ s tr h => ?_
  refine wp_started_bind (V := anyLocals) (keeps_prepareCapacity (by decide) (by decide) _) h
    fun _ ℓ s tr h => ?_
  refine wp_started_bind (hcheckpoint _ _) h fun _ ℓ s tr h => ?_
  refine wp_started_bind (V := anyLocals) (keeps_query (by decide) _) h fun record ℓ s tr h => ?_
  refine wp_started_bind (V := anyLocals) (keeps_transferUpload (by decide) (by decide)
    (by decide) _ (keeps_cancelRequested (by decide))) h fun remote ℓ s tr h => ?_
  refine wp_driveCheckpoint_closing h fun ℓ s tr h => ?_
  rw [wp_tryCatch, wp_bind]
  refine wp_mono (wp_finishing h) (fun _ _ _ _ _ => (wp_pure _).mpr trivial) fun e ℓ s tr _ => ?_
  exact wp_mild (keeps_mild (V := anyLocals) (keeps_bind (keeps_bind (keeps_raiseIf _ _)
    fun _ => keeps_storageDelete (by decide) _) fun _ => keeps_raise _))

/-- **A download** ends past its last checkpoint. -/
theorem wp_executeDriveDownload_closes {result : Dict} (h : Started j s tr) :
    wp (Others j) (Closes j) (executeDriveDownload j result : Py L Unit) (fun _ _ _ _ => True)
      (fun _ _ _ _ => True) ℓ s tr := by
  rw [executeDriveDownload]
  refine wp_started_bind (V := anyLocals) (keeps_ofExcept _) h fun recordId ℓ s tr h => ?_
  refine wp_started_bind (V := anyLocals) (keeps_driveCheckpoint (c := true) (by decide) _ _) h
    fun _ ℓ s tr h => ?_
  refine wp_started_bind (V := anyLocals) (keeps_query (by decide) _) h fun record ℓ s tr h => ?_
  refine wp_started_bind (V := anyLocals) (keeps_transferDownload (by decide) (by decide) _
    (keeps_cancelRequested (by decide))) h fun artifact ℓ s tr h => ?_
  refine wp_driveCheckpoint_closing h fun ℓ s tr h => ?_
  rw [wp_tryCatch]
  refine wp_mono (Q := fun _ _ _ _ => True) (E := fun _ _ _ _ => True) ?_ (fun _ _ _ _ h => h)
    fun e ℓ s tr _ => wp_mild (keeps_mild (V := anyLocals) (keeps_bind
      (keeps_removeManagedArtifact .executor (by decide) _ (show Plain .cleanup by decide))
        fun _ => keeps_raise _))
  refine wp_closed_bind (V := anyLocals) (keeps_flushArtifact (by decide)
    (by decide) _) h fun registered ℓ s tr h => ?_
  refine wp_closed_bind (V := anyLocals) (keeps_query (by decide) _) h
    fun retention ℓ s tr h => ?_
  refine wp_closed_bind (V := anyLocals) (keeps_applyLocalRetention (by decide) _ _ _) h
    fun deleted ℓ s tr h => ?_
  rw [wp_bind, commitSession]
  refine wp_closed_bind (V := anyLocals) (keeps_storage _ (by decide)) h
    fun _ ℓ s tr h => ?_
  exact wp_mono (wp_finishing h) (fun _ _ _ _ _ => (wp_pure _).mpr trivial) fun _ _ _ _ h => h

/-- **The Drive jobs** end past their last checkpoint. -/
theorem wp_runDrive_closes {result : Dict} (operation : DriveOperation) (h : Started j s tr) :
    wp (Others j) (Closes j) (runDrive j result operation : Py L Unit) (fun _ _ _ _ => True)
      (fun _ _ _ _ => True) ℓ s tr := by
  cases operation with
  | upload => exact wp_executeDriveUpload_closes h
  | download => exact wp_executeDriveDownload_closes h
  | check =>
    rw [runDrive, executeDriveCheck]
    refine wp_driveCheckpoint_closing h fun ℓ s tr h => ?_
    refine wp_closed_bind (V := anyLocals) (keeps_ask _ (by decide)) h fun _ ℓ s tr h => ?_
    refine wp_closed_bind (V := anyLocals) (keeps_ofReply _) h fun quota ℓ s tr h => ?_
    refine wp_closed_bind (V := anyLocals) (keeps_ask _ (by decide)) h fun _ ℓ s tr h => ?_
    refine wp_closed_bind (V := anyLocals) (keeps_ofReply _) h fun remoteCount ℓ s tr h => ?_
    exact wp_finishJob_closes h
  | delete =>
    rw [runDrive, executeDriveDelete]
    refine wp_started_bind (V := anyLocals) (keeps_ofExcept _) h fun recordId ℓ s tr h => ?_
    refine wp_driveCheckpoint_closing h fun ℓ s tr h => ?_
    refine wp_closed_bind (V := anyLocals) (keeps_query (by decide) _) h
      fun record ℓ s tr h => ?_
    refine wp_closed_bind (V := anyLocals) (keeps_transferDelete (by decide) _) h
      fun _ ℓ s tr h => ?_
    refine wp_closed_bind (V := anyLocals) (keeps_deleteRecords (by decide)
      (by decide) _) h fun _ ℓ s tr h => ?_
    exact wp_finishJob_closes h

/-- Nor does that of a Drive job. -/
theorem keeps_mild_handleDrive (result : Dict) (e : Exn) :
    Keeps (Mild j) V (handleDrive j result e : Py L Unit) := by
  have hend (status : JobStatus) (step error : String) (hstatus : status ≠ .succeeded) :
      Keeps (Mild j) V (finishDriveError j result status step error : Py L Unit) :=
    keeps_bind (keeps_raiseIf _ _) fun _ => keeps_mild_finishJob fun _ => hstatus
  unfold handleDrive
  split
  · exact hend _ _ _ (by decide)
  · exact keeps_bind (hend _ _ _ (by decide)) fun _ => keeps_raise _

/-- **The executor** of a job that is cancelled at its checkpoints. -/
theorem wp_executor_closes [Unicode] {kind : JobKind} (cfg : WorkerConfig)
    (hkind : kind.stopsBetween = true) (h : Started j s tr) :
    wp (Others j) (Closes j) (executor cfg j kind : Py L Unit) (fun _ _ _ _ => True)
      (fun _ _ _ _ => True) ℓ s tr := by
  cases kind with
  | localBackup =>
    rw [executor, executeLocalBackup, wp_scope]
    refine wp_started_bind (V := anyLocals) (keeps_query (by decide) _) h fun trigger ℓ s tr h => ?_
    rw [wp_tryCatch]
    exact wp_mono (wp_runLocalBackup_closes h) (fun _ _ _ _ h => h)
      fun e _ _ _ _ => wp_mild (keeps_mild_handleLocalBackup e)
  | drive operation =>
    rw [executor, executeDrive]
    refine wp_started_bind (V := anyLocals) (keeps_query (by decide) _) h fun request ℓ s tr h => ?_
    rw [wp_tryCatch]
    exact wp_mono (wp_runDrive_closes _ h) (fun _ _ _ _ h => h)
      fun e _ _ _ _ => wp_mild (keeps_mild_handleDrive (V := anyLocals) _ e)
  | _ => cases hkind

/-- **One execution**, from the opening of its log to the release of the lock. -/
theorem wp_processClaimed_closes [Unicode] {kind : JobKind} (cfg : WorkerConfig)
    (hkind : kind.stopsBetween = true) (h : Started j s tr) :
    wp (Others j) (Closes j) (processClaimed cfg j kind : Py L Unit) (fun _ _ _ _ => True)
      (fun _ _ _ _ => True) ℓ s tr := by
  have hnone : (fallback j kind : Py L Unit) = pure () := by
    cases kind <;> first | rfl | cases hkind
  refine wp_processClaimed_frame (I := Started j) (X := fun _ _ => True) ?_
    (fun _ _ _ ho h => h.others ho) ?_ (fun _ _ _ _ h => h) (fun _ _ _ _ h _ => h)
    (fun _ _ _ => trivial) (fun _ _ _ h => wp_executor_closes cfg hkind h) ?_ h
  · rintro s tr e s' (he | he) <;> exact closes_of_mild (mild_of_plain (by rw [he]; decide))
  · exact fun s tr e s' h he => h.acts ⟨he.1, show Ongoing (stepClass e) by rw [he.2]; decide⟩
  · exact fun ℓ s tr _ => hnone ▸ (wp_pure _).mpr trivial

end Executors

end Rounds

/-- The contract of the jobs that are cancelled at their checkpoints. -/
def checkpointing : Contract where
  guarantee j kind s tr e s' := kind.stopsBetween = true → Closes j s tr e s'
  post _ _ _ _ _ := True

/-- The contract holds from the claim of any job on. -/
theorem checkpointing_holds [Unicode] : checkpointing.Holds where
  stable _ _ _ _ _ _ _ _ := trivial
  safe cfg j kind s log h := claimedRound_safe fun hstops => by
    obtain ⟨job, hj, -, hrunning, -⟩ := h.row
    have hstarted : Started j s (claimTrace log j) :=
      ⟨⟨job, hj, by simp [hrunning]⟩, by simp [Finished, claimTrace]⟩
    exact wp_processClaimed_closes cfg hstops hstarted

section Requests

variable {s s' : World} {j : JobId} {job job' : Job} {r : WebRequest}

/-- A request that makes a job leaves the others where they are. -/
theorem enqueueing_get {x : Except Exn (JobId × World)}
    (h : ∀ i s', x = .ok (i, s') → Enqueued r s i s') (hj : s.jobs.get j = some job) :
    (enqueueing s x).2.jobs.get j = some job := by
  cases x with
  | error e => exact hj
  | ok p =>
    obtain ⟨-, new, -, -, hs⟩ := h p.1 p.2 rfl
    rw [show (enqueueing s (.ok p)).2 = p.2 from rfl, hs]
    exact Table.get_add_of_some hj

/-- Where a request leaves a cancellation, it was one of that job, and was accepted. -/
theorem requestCancel_cancelled {accepts : Job → Bool} {onPending : Job → Job} {i : JobId}
    (hj : s.jobs.get j = some job)
    (hj' : (requestCancel accepts onPending i s).2.jobs.get j = some job')
    (hold : job.cancelRequested = false) (hnew : job'.cancelRequested = true) :
    (requestCancel accepts onPending i s).1 = true ∧ i = j := by
  have hsame (h : s.jobs.get j = some job') {p : Prop} : p := by
    obtain rfl : job = job' := Option.some.inj (hj.symm.trans h)
    simp [hold] at hnew
  rw [requestCancel] at hj' ⊢
  split at hj'
  · split_ifs at hj' ⊢ with haccepts
    · refine ⟨rfl, by_contra fun hij => hsame ?_⟩
      rwa [World.modifyJob_get_ne s (Ne.symm hij)] at hj'
    · exact hsame hj'
  · exact hsame hj'

/-- A request that leaves a cancellation was one to cancel that job, and was accepted. -/
theorem handle_cancelled (hj : s.jobs.get j = some job)
    (hj' : (handle s r).2.jobs.get j = some job') (hold : job.cancelRequested = false)
    (hnew : job'.cancelRequested = true) :
    (handle s r).1 = .answered true ∧ r.cancels j = true := by
  have hsame (h : (handle s r).2.jobs.get j = some job) {p : Prop} : p := by
    obtain rfl : job = job' := Option.some.inj (h.symm.trans hj')
    simp [hold] at hnew
  have hcancel {accepts : Job → Bool} {onPending : Job → Job} {i : JobId}
      (hr : handle s r = answering (requestCancel accepts onPending i s)) :
      (handle s r).1 = .answered true ∧ i = j := by
    rw [hr] at hj' ⊢
    obtain ⟨haccepted, hi⟩ := requestCancel_cancelled hj hj' hold hnew
    exact ⟨congrArg WebResponse.answered haccepted, hi⟩
  cases r with
  | lifecycle => exact hsame (enqueueing_get (fun _ _ => enqueueLifecycleJob_enqueued) hj)
  | assistedShutdown =>
    exact hsame (enqueueing_get (fun _ _ => enqueueAssistedShutdown_enqueued) hj)
  | forcedShutdown => exact hsame (enqueueing_get (fun _ _ => enqueueForcedShutdown_enqueued) hj)
  | localBackup => exact hsame (enqueueing_get (fun _ _ => enqueueLocalBackup_enqueued) hj)
  | restore => exact hsame (enqueueing_get (fun _ _ => enqueueRestore_enqueued) hj)
  | driveCheck => exact hsame (enqueueing_get (fun _ _ => enqueueDriveCheck_enqueued) hj)
  | driveUpload => exact hsame (enqueueing_get (fun _ _ => enqueueDriveUpload_enqueued) hj)
  | driveDownload => exact hsame (enqueueing_get (fun _ _ => enqueueDriveDownload_enqueued) hj)
  | driveDelete => exact hsame (enqueueing_get (fun _ _ => enqueueDriveDelete_enqueued) hj)
  | updateCheck => exact hsame (enqueueing_get (fun _ _ => enqueueUpdateCheck_enqueued) hj)
  | update => exact hsame (enqueueing_get (fun _ _ => enqueueUpdate_enqueued) hj)
  | hostPower => exact hsame (enqueueing_get (fun _ _ => enqueueHostPowerJob_enqueued) hj)
  | backupCancel i | driveCancel i | shutdownCancel i | updateCancel i =>
    obtain ⟨haccepted, hi⟩ := hcancel rfl
    exact ⟨haccepted, beq_iff_eq.mpr hi⟩
  | shutdownNow i owner =>
    simp only [handle, answering, requestShutdownNow] at hj'
    split at hj'
    · split_ifs at hj'
      · by_cases hij : j = i
        · subst hij
          obtain rfl : { job with executeNowRequested := true } = job' := by simpa [hj] using hj'
          simp [hold] at hnew
        · obtain rfl : job = job' := by simpa [hij, hj] using hj'
          simp [hold] at hnew
      · obtain rfl : job = job' := by simpa [hj] using hj'
        simp [hold] at hnew
    · obtain rfl : job = job' := by simpa [hj] using hj'
      simp [hold] at hnew
  | settings values =>
    rw [handle] at hj'
    split_ifs at hj'
    · obtain rfl : job = job' := by simpa [hj] using hj'
      simp [hold] at hnew
    · obtain rfl : job = job' := by simpa [hj] using hj'
      simp [hold] at hnew

/-- Only the web process requests a cancellation. -/
theorem Turn.cancelled {o : Occurrence} (t : Turn s o s') (hj : s.jobs.get j = some job)
    (hj' : s'.jobs.get j = some job') (hold : job.cancelRequested = false)
    (hnew : job'.cancelRequested = true) :
    ∃ r, o = .request r (.answered true) ∧ r.cancels j = true := by
  have hkept {p : Prop} (h : job'.cancelRequested = job.cancelRequested) : p := by
    simp [h, hold] at hnew
  have hsame {p : Prop} (h : s'.jobs.get j = s.jobs.get j) : p := by
    obtain rfl : job = job' := Option.some.inj (hj.symm.trans (h ▸ hj'))
    exact hkept rfl
  cases t with
  | requested r =>
    obtain ⟨haccepted, hr⟩ := handle_cancelled hj hj' hold hnew
    exact ⟨r, by rw [haccepted], hr⟩
  | idle _ h _ => exact hsame (by rw [h.jobs])
  | recovered w =>
    rw [recoverInterruptedJobs_get, hj, Option.map_some] at hj'
    obtain rfl := Option.some.inj hj'
    exact hkept (by split_ifs <;> rfl)
  | swept w => exact hsame rfl
  | claimed w i h =>
    by_cases hij : j = i
    · subst hij
      obtain ⟨job₁, w', path, hj₁, -, hclaimed, -⟩ := h.row
      obtain rfl : job = job₁ := by simpa [hj] using hj₁
      obtain rfl : job.claimed w' path = job' := Option.some.inj (hclaimed.symm.trans hj')
      exact hkept rfl
    · exact hsame (h.others j hij)
  | working w i e h hi =>
    by_cases hij : j = i
    · subst hij
      obtain ⟨job₁, hj₁, hrow⟩ := h.rowKept hj
      obtain rfl : job' = job₁ := by simpa [hj'] using hj₁
      exact hkept hrow.cancelRequested
    · rcases h with h | ⟨-, rfl⟩
      · rcases h.cases with hp | ⟨found, new, -, hend⟩
        · exact hsame (hp.others j hij)
        · exact hsame ((hend.others j job hij hj).trans hj.symm)
      · exact hsame rfl

end Requests

/-- A job is ended in its own events. -/
theorem finished_eventsOf {j : JobId} {tr : List Ev} :
    Finished j (eventsOf j tr) ↔ Finished j tr := by
  simp [Finished, mem_eventsOf, jobOf, Label.job]

/-- What a step guarantees rests on the events of its job alone. -/
theorem Closes.eventsOf {j : JobId} {s s' : World} {tr : List Ev} {e : Ev}
    (h : Closes j s tr e s') : Closes j s (eventsOf j tr) e s' :=
  ⟨fun found he => by rw [lastCheckpoint_eventsOf]; exact h.succeeds found he,
    fun hf => h.ends (finished_eventsOf.mp hf)⟩

namespace System

section Runs

variable {allowed : Policy} {s₀ : World} {h : History} {S S' : System} {o : Occurrence} {j : JobId}
  {job job' : Job}

/-- What has succeeded stays as it is. -/
theorem RowStepped.succeeded {K : Contract} (h : RowStepped K S o S' j job job')
    (hj : S.world.jobs.get j = some job) (hj' : S'.world.jobs.get j = some job')
    (hs : job.status = .succeeded) : job'.cancelRequested = job.cancelRequested := by
  cases h with
  | kept => rfl
  | requested hreq =>
    cases hreq with
    | same => rfl
    | stopNow => rfl
    | cancel haccepts => simp [Job.acceptsCancel, hs, JobStatus.isActive] at haccepts
    | cancelPending _ _ hpending => simp [hs] at hpending
  | interrupted hr => simp [hs] at hr
  | claimed _ _ hpending => simp [hs] at hpending
  | worked w tr e _ _ hworked =>
    obtain ⟨job₁, hj₁, hkept⟩ := hworked.rowKept hj
    obtain rfl : job' = job₁ := by simpa [hj'] using hj₁
    exact hkept.cancelRequested

/-- What succeeds in a step is ended by it. -/
theorem RowStepped.finishes {K : Contract} (h : RowStepped K S o S' j job job')
    (hj : S.world.jobs.get j = some job) (hj' : S'.world.jobs.get j = some job')
    (hold : job.status ≠ .succeeded) (hs : job'.status = .succeeded) :
    ∃ w found, o = .work w (.tx (.finish j found .succeeded)) ∧
      job'.cancelRequested = job.cancelRequested := by
  have hsame {p : Prop} (h : job'.status = job.status) : p := absurd (h.symm.trans hs) hold
  cases h with
  | kept => exact hsame rfl
  | requested hreq =>
    cases hreq with
    | same => exact hsame rfl
    | stopNow => exact hsame rfl
    | cancel => exact hsame rfl
    | cancelPending => cases hs
  | interrupted => cases hs
  | claimed => cases hs
  | worked w tr e ho _ hworked =>
    subst ho
    rcases hworked with hbusy | ⟨-, hrelease⟩
    · rcases hbusy.cases with hp | ⟨found, new, rfl, hend⟩
      · obtain ⟨job₁, hj₁, -, hstatus⟩ := hp.row job hj
        obtain rfl : job' = job₁ := by simpa [hj'] using hj₁
        exact hsame hstatus
      · obtain ⟨job₁, job₂, hj₁, hj₂, hkept, -, rfl, -⟩ := hend.row
        obtain rfl : job = job₁ := by simpa [hj] using hj₁
        obtain rfl : job' = job₂ := by simpa [hj'] using hj₂
        exact ⟨w, found, by rw [hs], hkept.cancelRequested⟩
    · rw [hrelease] at hj'
      obtain rfl : job = job' := Option.some.inj (hj.symm.trans hj')
      exact hsame rfl

variable [Unicode]

/-- **A cancellation that is requested was accepted.** -/
theorem Run.cancelAccepted (hrun : Run allowed s₀ h S) (hj : S.world.jobs.get j = some job)
    (hr : job.cancelRequested = true) : CancelAccepted h j := by
  refine (hrun.induct (M := fun h S => ∀ j job, S.world.jobs.get j = some job →
    job.cancelRequested = true → CancelAccepted h j) Contract.none_holds ?_ ?_).2 j job hj hr
  · intro hinit j job hj
    simp [hinit.jobs, Table.empty, Table.get] at hj
  · intro h S o S' _ hs _ ih j job' hj' hnew
    cases hj : S.world.jobs.get j with
    | none => simp [(hs.turn.fresh hj hj').cancelRequested] at hnew
    | some job =>
      by_cases hold : job.cancelRequested = true
      · exact cancelAccepted_concat.mpr (.inl (ih j job hj hold))
      · exact cancelAccepted_concat.mpr
          (.inr (hs.turn.cancelled hj hj' (Bool.not_eq_true _ ▸ hold) hnew))

/-- **What was pending at the last checkpoint** of a job that has succeeded is what its row
says. -/
theorem Run.closed (hrun : Run allowed s₀ h S) (hj : S.world.jobs.get j = some job)
    (hkind : job.kind.stopsBetween = true) (hs : job.status = .succeeded) :
    lastCheckpoint j (jobEvents j h) = some (false, job.cancelRequested) ∧
      Finished j (jobEvents j h) := by
  refine (hrun.induct (M := fun h S => ∀ j job, S.world.jobs.get j = some job →
    job.kind.stopsBetween = true → job.status = .succeeded →
      lastCheckpoint j (jobEvents j h) = some (false, job.cancelRequested) ∧
        Finished j (jobEvents j h)) checkpointing_holds ?_ ?_).2 j job hj hkind hs
  · intro hinit j job hj
    simp [hinit.jobs, Table.empty, Table.get] at hj
  intro h S o S' hrun hs _ ih j job' hj' hkind hsucceeded
  cases hj : S.world.jobs.get j with
  | none => simp [(hs.turn.fresh hj hj').status] at hsucceeded
  | some job =>
    obtain ⟨job₁, hj₁, hmoved⟩ := hs.turn.moved hj
    obtain rfl : job' = job₁ := by simpa [hj'] using hj₁
    obtain ⟨job₂, hj₂, hrow⟩ := hs.row hj
    obtain rfl : job' = job₂ := by simpa [hj'] using hj₂
    have hstops : job.kind.stopsBetween = true := hmoved.kind ▸ hkind
    -- what is known of a step for the job
    have hwork {w : WorkerId} {e : Ev} (ho : o = .work w e) (he : jobOf e = some j) :
        Closes j S.world (jobEvents j h) e S'.world := by
      obtain ⟨cfg, p, tr, job₃, hw, hi, hj₃, -, hG, -⟩ := hs.within ho he
      obtain rfl : job = job₃ := by simpa [hj] using hj₃
      rw [hrun.jobEvents_eq hw hi]
      exact (hG hstops).eventsOf
    by_cases hold : job.status = .succeeded
    · obtain ⟨hlast, hfinished⟩ := ih j job hj hstops hold
      rw [hrow.succeeded hj hj' hold]
      cases o with
      | work w e =>
        by_cases he : jobOf e = some j
        · rw [jobEvents_work he]
          exact ⟨(lastCheckpoint_concat ((hwork rfl he).ends hfinished)).trans hlast,
            hfinished.append _⟩
        · rw [jobEvents_work_of_ne he]
          exact ⟨hlast, hfinished⟩
      | _ =>
        rw [jobEvents_concat_of_event rfl]
        exact ⟨hlast, hfinished⟩
    · obtain ⟨w, found, rfl, hrequested⟩ := hrow.finishes hj hj' hold hsucceeded
      obtain ⟨job₃, hj₃, hlast⟩ := (hwork rfl rfl).succeeds found rfl
      obtain rfl : job = job₃ := by simpa [hj] using hj₃
      rw [jobEvents_work rfl, hrequested]
      exact ⟨(lastCheckpoint_concat rfl).trans hlast, found, .succeeded,
        List.mem_append_right _ (List.mem_singleton_self _)⟩

/-- **A cancellation that comes too late.**  A local backup or a Drive job that succeeds had
an accepted cancellation if and only if one was pending when its last checkpoint turned
cancellation off. -/
theorem Run.cancelAccepted_iff_pending (hrun : Run allowed s₀ h S)
    (hj : S.world.jobs.get j = some job) (hkind : job.kind.stopsBetween = true)
    (hs : job.status = .succeeded) :
    CancelAccepted h j ↔ lastCheckpoint j (jobEvents j h) = some (false, true) := by
  rw [(hrun.closed hj hkind hs).1]
  constructor
  · intro haccepted
    obtain ⟨job', hj', hrequested⟩ := hrun.cancelRequested haccepted
    obtain rfl : job = job' := by simpa [hj] using hj'
    rw [hrequested]
  · intro hpending
    exact hrun.cancelAccepted hj (Prod.mk.inj (Option.some.inj hpending)).2

end Runs

/-- Job 1 is a local backup that has succeeded. -/
def backedUp (S : System) : Bool :=
  (S.world.jobs.get 1).any fun job => job.kind == .localBackup && job.status == .succeeded

/-- What `backedUp` tests. -/
theorem backedUp_iff {S : System} : backedUp S = true ↔ ∃ job, S.world.jobs.get 1 = some job ∧
    job.kind = .localBackup ∧ job.status = .succeeded := by
  simp [backedUp, Option.any_eq_true]

/-- Job 2 is a restore. -/
def restoresSecond (S : System) : Bool := (S.world.jobs.get 2).any fun job => job.kind == .restore .local

/-- The occurrence of the end of job `j` in a status. -/
def endsOf (j : JobId) (status : JobStatus) : Occurrence × World → Bool
  | (.work _ (.tx (.finish i _ new)), _) => i == j && new == status
  | _ => false

/-- A backup is cancelled between the read and the write of its last checkpoint, and restored. -/
theorem exists_backup_and_restore :
    ∃ h S, @Run .ascii anyPolicy zonedWorld h S ∧ backedUp S = true ∧
      h.any (acceptsCancelOf 1) = true ∧ restoresSecond S = true ∧
      h.any (endsOf 2 .succeeded) = true :=
  @exists_run_from .ascii anyPolicy _ _ initial_zonedWorld
    (round (.localBackup "MANUAL") smooth 33 ++ [.request (.backupCancel 1)] ++
      List.replicate 16 (.work "a:1" smooth) ++ [.ended "a:1",
        .request (.restore .local 1 "RESTAURAR"), .call "a:1"] ++
          List.replicate 53 (.work "a:1" smooth))
    (fun h S => backedUp S = true ∧ h.any (acceptsCancelOf 1) = true ∧ restoresSecond S = true ∧
      h.any (endsOf 2 .succeeded) = true) _ (by decide +kernel)

/-- A backup is cancelled between the read and the write of its last checkpoint. -/
theorem cancelAccepted_iff_pending_backup :
    ∃ h S job, @Run .ascii anyPolicy zonedWorld h S ∧ S.world.jobs.get 1 = some job ∧
      job.kind.stopsBetween = true ∧ job.status = .succeeded ∧ CancelAccepted h 1 ∧
      lastCheckpoint 1 (jobEvents 1 h) = some (false, true) := by
  obtain ⟨h, S, hrun, hbacked, hany, -⟩ := exists_backup_and_restore
  obtain ⟨job, hj, hkind, hstatus⟩ := backedUp_iff.mp hbacked
  have hstops : job.kind.stopsBetween = true := by rw [hkind]; rfl
  have haccepted := cancelAccepted_of_any hany
  exact ⟨h, S, job, hrun, hj, hstops, hstatus, haccepted,
    (@Run.cancelAccepted_iff_pending anyPolicy zonedWorld h S 1 job .ascii hrun hj hstops
      hstatus).mp haccepted⟩

end System

end PalworldManager
