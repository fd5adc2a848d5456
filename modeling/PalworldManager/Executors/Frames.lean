/-
# What the making of an archive may touch

For the functions that make, remove and register archives, the classes of steps
they take.  The lemmas follow the bodies.
-/

import PalworldManager.Executors.Rules
import PalworldManager.Worker

namespace PalworldManager

open Effects
open Effects.Exec hiding bind ask

variable {L α β : Type} {A : StepClass → Prop} {j : JobId} {V : L → L → Prop} [IsPreorder L V]

/-- A routine call. -/
theorem keeps_call (hr : A .routine) {c : Call} {g : Reply c → Py L α} (hc : c.cls = .routine)
    (hg : ∀ r, (g r).Keeps (Acts A j) V) : Keeps (Acts A j) V (ask j c >>= g) :=
  keeps_bind (keeps_ask c (hc ▸ hr)) hg

/-- A routine call whose result a continuation goes on with. -/
theorem keeps_reply (hr : A .routine) {c : Call} {g : Reply c → Py L α} {f : α → Py L β}
    (hc : c.cls = .routine) (hg : ∀ r, (g r).Keeps (Acts A j) V)
    (hf : ∀ a, (f a).Keeps (Acts A j) V) :
    Keeps (Acts A j) V (ask j c >>= fun r => g r >>= f) :=
  keeps_call hr hc fun r => keeps_bind (hg r) hf

section Artifacts

/-- A call of the storage is of its class. -/
theorem keeps_storage (op : StorageOp) (ho : A op.cls) :
    Keeps (Acts A j) V (storage j op : Py L Unit) :=
  keeps_bind (keeps_ask _ ho) fun _ => keeps_ofReply _

/-- The check of the directory is routine. -/
theorem keeps_validateControlledDirectory (hr : A .routine) (invalid : Exn) :
    Keeps (Acts A j) V (validateControlledDirectory j invalid : Py L Unit) :=
  keeps_reply hr rfl (fun _ => keeps_ofReply _) fun _ => keeps_raiseIf _ _

/-- A path is resolved by one call. -/
theorem keeps_resolveManagedArtifact {site : ArtifactSite} {path : String}
    (hask : Keeps (Acts A j) V (ask j (.resolve site path) : Py L _)) :
    Keeps (Acts A j) V (resolveManagedArtifact j site path : Py L Bool) :=
  keeps_ite (fun _ => keeps_bind hask fun _ => keeps_ofReply _) fun _ => keeps_pure _

/-- To unlink a file only shrinks the local directory. -/
theorem shrinks_eraseLocal (s : World) (path : String) :
    Shrinks s { s with localFiles := Function.update s.localFiles path none } where
  records _ _ := id
  localFiles n i h := by
    by_cases hn : n = path <;> simp_all [Function.update]
  remoteFiles _ _ := id

/-- A local file is erased: an effect that shrinks. -/
theorem effect_eraseLocal (j : JobId) (s : World) (site : ArtifactSite) (path : String) :
    Effect j (.removed j site path) s
      { s with localFiles := Function.update s.localFiles path none } :=
  have hsame : SameJobs s { s with localFiles := Function.update s.localFiles path none } :=
    ⟨rfl, rfl, rfl⟩
  { about := rfl
    files := rfl
    records := fun _ => rfl
    preventive := fun _ => rfl
    stored := (shrinks_eraseLocal s path).stored j
    shrinks := fun _ => shrinks_eraseLocal s path
    same := fun _ => hsame
    progress := fun _ => hsame.progress j
    ended := fun _ _ h => nomatch h }

/-- A removal takes steps of the class of its site. -/
theorem keeps_removeManagedArtifact (site : ArtifactSite) (hs : A site.cls) (path : String)
    (hl : A (Label.removed j site path).cls) :
    Keeps (Acts A j) V (removeManagedArtifact j site path : Py L Bool) := by
  refine keeps_bind (keeps_resolveManagedArtifact (keeps_ask _ hs)) fun managed => ?_
  refine keeps_ite (fun _ => ?_) fun _ => keeps_pure _
  refine keeps_bind (keeps_ask _ hs) fun _ => keeps_bind (keeps_ofReply _) fun isFile => ?_
  refine keeps_ite (fun _ => ?_) fun _ => keeps_pure _
  refine keeps_bind (keeps_ask _ hs) fun _ => keeps_bind (keeps_ofReply _) fun _ => ?_
  refine keeps_bind (keeps_tx _ _ fun s => ?_) fun _ => keeps_pure _
  exact ⟨effect_eraseLocal j s site path, hl⟩

/-- An archive without a record is cleaned up. -/
theorem keeps_removeUnregistered (hc : A .cleanup) (artifact : Option BackupArtifact) :
    Keeps (Acts A j) V (removeUnregistered j artifact : Py L Unit) := by
  cases artifact with
  | none => exact keeps_pure _
  | some a =>
    exact keeps_bind (keeps_removeManagedArtifact .executor hc _ hc) fun _ => keeps_pure _

/-- The look for the destination is routine. -/
theorem keeps_destinationExists (hr : A .routine) (path : String) :
    Keeps (Acts A j) V (destinationExists j path : Py L Bool) := by
  refine keeps_bind (keeps_query hr _) fun published => ?_
  exact keeps_reply hr rfl (fun _ => keeps_ofReply _) fun present => keeps_pure _

/-- A local file is published. -/
theorem keeps_publishLocal (hp : A .publish) (path : String) :
    Keeps (Acts A j) V (publishLocal j path : Py L Unit) := by
  refine keeps_tx _ _ fun s =>
    ⟨effect_stored rfl rfl (by simp [Label.cls]) ⟨rfl, rfl, rfl⟩ ?_ rfl fun _ => rfl, hp⟩
  refine ⟨fun _ _ => .inl, fun n i h => ?_, fun _ _ => .inl⟩
  by_cases hn : n = path <;> simp_all [Function.update]

end Artifacts

section Archive

/-- The server is prepared in routine steps and checkpoints. -/
theorem keeps_prepareServer (hr : A .routine) {progress : String → ℕ → Bool → Py L Unit}
    (hp : ∀ step n c, (progress step n c).Keeps (Acts A j) V) (state : PalworldHealthState) :
    Keeps (Acts A j) V (prepareServer j progress state) := by
  cases state with
  | online => exact keeps_bind (hp _ _ _) fun _ => keeps_storage _ hr
  | offline => exact hp _ _ _
  | _ => exact keeps_raise _

/-- So is the archive staged. -/
theorem keeps_stageArchive (hr : A .routine) {progress : String → ℕ → Bool → Py L Unit}
    (hp : ∀ step n c, (progress step n c).Keeps (Acts A j) V) :
    Keeps (Acts A j) V (stageArchive j progress) := by
  refine keeps_bind (hp _ _ _) fun _ => ?_
  refine keeps_reply hr rfl (fun _ => keeps_ofReply _) fun health => ?_
  refine keeps_bind (keeps_prepareServer hr hp _) fun _ => ?_
  refine keeps_bind (hp _ _ _) fun _ => keeps_bind (keeps_storage _ hr) fun _ => ?_
  refine keeps_bind (hp _ _ _) fun _ => keeps_bind (keeps_storage _ hr) fun _ => ?_
  refine keeps_bind (hp _ _ _) fun _ => keeps_bind (keeps_storage _ hr) fun _ => ?_
  exact keeps_bind (hp _ _ _) fun _ => keeps_storage _ hr

/-- **An archive is published**, in routine steps and checkpoints. -/
theorem keeps_publishArchive (hr : A .routine) (hpub : A .publish) (identity : BackupIdentity)
    (filename : String)
    {progress : String → ℕ → Bool → Py Bool Unit}
    (hp : ∀ step n c, (progress step n c).Keeps (Acts A j) anyLocals) :
    Keeps (Acts A j) anyLocals (publishArchive j identity filename progress) := by
  refine keeps_bind (hp _ _ _) fun _ => ?_
  refine keeps_reply hr rfl (fun _ => keeps_ofReply _) fun manifestId => ?_
  refine keeps_bind (keeps_raiseIf _ _) fun _ => ?_
  refine keeps_reply hr rfl (fun _ => keeps_ofReply _) fun digest => ?_
  refine keeps_reply hr rfl (fun _ => keeps_ofReply _) fun sizeBytes => ?_
  refine keeps_bind (hp _ _ _) fun _ => ?_
  refine keeps_bind (keeps_destinationExists hr _) fun present => ?_
  refine keeps_bind (keeps_raiseIf _ _) fun _ => keeps_bind (keeps_storage _ hr) fun _ => ?_
  refine keeps_bind (keeps_publishLocal hpub _) fun _ => ?_
  refine keeps_bind (keeps_storage _ hpub) fun _ => ?_
  refine keeps_bind (keeps_assign _ fun _ => trivial) fun _ => ?_
  refine keeps_reply hr rfl (fun _ => keeps_ofReply _) fun _ => ?_
  refine keeps_reply hr rfl (fun _ => keeps_ofReply _) fun published => ?_
  exact keeps_bind (keeps_raiseIf _ _) fun _ => keeps_pure _

/-- So is a backup of a given name created. -/
theorem keeps_createNamed (hr : A .routine) (hpub : A .publish) (identity : BackupIdentity)
    (filename : String)
    {progress : String → ℕ → Bool → Py Bool Unit}
    (hp : ∀ step n c, (progress step n c).Keeps (Acts A j) anyLocals) :
    Keeps (Acts A j) anyLocals (createNamed j identity filename progress) := by
  refine keeps_bind (keeps_raiseIf _ _) fun _ => keeps_bind (keeps_storage _ hr) fun _ => ?_
  refine keeps_bind (keeps_validateControlledDirectory hr _) fun _ => ?_
  refine keeps_bind (keeps_validateControlledDirectory hr _) fun _ => ?_
  refine keeps_bind (keeps_storage _ hr) fun _ => ?_
  refine keeps_tryCatch (keeps_bind (keeps_stageArchive hr hp) fun _ =>
    keeps_publishArchive hr hpub _ _ hp) fun e => ?_
  refine keeps_bind keeps_locals fun published => ?_
  refine keeps_ite (fun _ => ?_) fun _ => keeps_raise _
  exact keeps_bind (keeps_removeManagedArtifact .publication hpub _ hpub) fun _ => keeps_raise _

/-- So is a backup created. -/
theorem keeps_createBackup (hr : A .routine) (hpub : A .publish) {progress : String → ℕ → Bool → Py Bool Unit}
    (hp : ∀ step n c, (progress step n c).Keeps (Acts A j) anyLocals) :
    Keeps (Acts A j) V (createBackup j progress : Py L BackupArtifact) := by
  refine keeps_scope (keeps_bind (keeps_raiseIf _ _) fun _ => ?_)
  exact keeps_call hr rfl fun identity => keeps_createNamed hr hpub _ _ hp

end Archive

section Registration

/-- The look for what is managed is of the retention. -/
theorem keeps_managedRecords (hr : A .retention) (rs : List (ℕ × BackupRecord)) :
    Keeps (Acts A j) V (managedRecords j rs : Py L _) := by
  induction rs with
  | nil => exact keeps_pure _
  | cons r rs ih =>
    refine keeps_bind (keeps_resolveManagedArtifact (keeps_ask _ hr)) fun _ => ?_
    exact keeps_bind ih fun _ => keeps_pure _

/-- So is the removal of records. -/
theorem keeps_removeRecords (hr : A .retention) (rs : List (ℕ × BackupRecord)) :
    Keeps (Acts A j) V (removeRecords j rs : Py L Unit) := by
  induction rs with
  | nil => exact keeps_pure _
  | cons r rs ih => exact keeps_bind (keeps_removeManagedArtifact .retention hr _ hr) fun _ => ih

/-- **The local retention** takes no other step. -/
theorem keeps_applyLocalRetention (hr : A .retention) (records : List (ℕ × BackupRecord))
    (retention : ℕ) (preserve : List ℕ) :
    Keeps (Acts A j) V (applyLocalRetention j records retention preserve : Py L _) := by
  refine keeps_bind (keeps_managedRecords hr _) fun managed => ?_
  exact keeps_bind (keeps_removeRecords hr _) fun _ => keeps_pure _

/-- What an insert that succeeds does: the identifier and the name were free, and
the table has one row more. -/
theorem insertRecord_eq_ok {s s' : World} {id : ℕ} {record : BackupRecord}
    (h : s.insertRecord id record = .ok s') :
    ∃ hfree : s.backups.get id = none,
      (∀ i r, s.backups.get i = some r → ¬(r.location = record.location ∧
        r.filename = record.filename)) ∧
      s' = { s with backups := s.backups.insertAt id record hfree } := by
  rw [World.insertRecord] at h
  split_ifs at h with hfree hunique
  refine ⟨hfree, fun i r hi hr => hunique ?_, by simpa [eq_comm] using h⟩
  rw [List.any_eq_true]
  exact ⟨(i, r), Table.mem_rows_iff.mpr hi, by simp [hr]⟩

/-- A record that is inserted is stored, and changes no job. -/
theorem insertRecord_stored {s s' : World} {id : ℕ} {record : BackupRecord}
    (h : s.insertRecord id record = .ok s') (hr : record.wellPlaced) :
    SameJobs s s' ∧ Stored j s s' := by
  obtain ⟨hfree, -, rfl⟩ := insertRecord_eq_ok h
  refine ⟨⟨rfl, rfl, rfl⟩, fun i r hi => ?_, fun _ _ => .inl, fun _ _ => .inl⟩
  rw [Table.get_insertAt] at hi
  split_ifs at hi
  · obtain rfl : record = r := by simpa using hi
    exact .inr hr
  · exact .inl hi

/-- It changes no local file. -/
theorem insertRecord_localFiles {s s' : World} {id : ℕ} {record : BackupRecord}
    (h : s.insertRecord id record = .ok s') : s'.localFiles = s.localFiles := by
  obtain ⟨-, -, rfl⟩ := insertRecord_eq_ok h
  rfl

/-- Records that are deleted are gone. -/
theorem shrinks_deleteRecords (s : World) (ids : List ℕ) : Shrinks s (s.deleteRecords ids) where
  records i r h := by
    rw [World.deleteRecords, Table.get_keep, Option.filter_eq_some_iff] at h
    exact h.1
  localFiles _ _ := id
  remoteFiles _ _ := id

/-- The commit of a registration that ends no job: the record is there, and of
the others some go. -/
theorem commitRegistration_eq_ok {artifact : BackupArtifact} {id : ℕ} {deleted : List ℕ}
    {s s' : World} {u : Unit} (h : commitRegistration artifact j id deleted s = .ok (u, s')) :
    ∃ s₁, s.insertRecord id (artifact.record j) = .ok s₁ ∧ s' = s₁.deleteRecords deleted := by
  rw [commitRegistration] at h
  cases hs : s.insertRecord id (artifact.record j) with
  | error e => simp [hs, Bind.bind, Except.bind] at h
  | ok s₁ =>
    refine ⟨s₁, rfl, ?_⟩
    simpa [hs, Bind.bind, Except.bind, Pure.pure, Except.pure, eq_comm] using h

/-- A session that commits is of the class of its label. -/
theorem keeps_commitSession (hr : A .routine) {f : World → Except Exn (α × World)}
    {label : α → Label}
    (hok : ∀ s a s', f s = .ok (a, s') → Effect j (label a) s s' ∧ A (label a).cls) :
    Keeps (Acts A j) V (commitSession j f label : Py L α) :=
  keeps_bind (keeps_storage _ hr) fun _ => keeps_session hr hok

/-- **A registration is committed**: the record and the removals are one effect. -/
theorem effect_commitRegistration {artifact : BackupArtifact} {id : ℕ} {deleted : List ℕ}
    {s s' : World} {u : Unit} (h : commitRegistration artifact j id deleted s = .ok (u, s')) :
    Effect j (.record j id) s s' := by
  obtain ⟨s₁, hs, rfl⟩ := commitRegistration_eq_ok h
  obtain ⟨hsame, hstored⟩ := insertRecord_stored (j := j) hs artifact.placed
  have hfiles := insertRecord_localFiles hs
  exact effect_stored rfl rfl (by simp [Label.cls]) ⟨hsame.jobs, hsame.lock, hsame.heartbeat⟩
    (hstored.shrinks (shrinks_deleteRecords _ _)) hfiles nofun

/-- It takes a routine step or one that records. -/
theorem keeps_commitRegistration (hr : A .routine) (hrec : A .record) (artifact : BackupArtifact)
    (id : ℕ) (deleted : List ℕ) :
    Keeps (Acts A j) V
      (commitSession j (commitRegistration artifact j id deleted) (fun _ => .record j id) :
        Py L Unit) :=
  keeps_commitSession hr fun _ _ _ h => ⟨effect_commitRegistration h, hrec⟩

/-- A flush changes nothing that another session sees. -/
theorem keeps_flushArtifact (hr : A .routine) (ht : A .retention) (artifact : BackupArtifact) :
    Keeps (Acts A j) V (flushArtifact j artifact : Py L _) := by
  refine keeps_session hr fun s r s' h => ⟨?_, ht⟩
  obtain ⟨r', -, hr'⟩ := except_map_eq_ok.mp h
  obtain ⟨-, rfl⟩ : r' = r ∧ s = s' := by simpa using hr'
  exact effect_shrinks rfl nofun (.refl s) (.refl s) rfl fun _ => rfl

end Registration

end PalworldManager
