/-
# Whether a successful backup keeps its own backup

A local backup registers its record and applies the retention within one session, and
it protects no record.  The retention ranks by `created_at`, so the new record is kept
exactly when fewer managed records than the retention were made later by their own
account (`executeLocalBackup_keepsOwn_iff`); the transfers, the restore and the update
protect the record they have just made.

The first section follows `create`: what it does to the backup directory and to the
tables.  The second ranks a record in a selection.
-/

import PalworldManager.Backups.Retention
import PalworldManager.Executors.Backup

namespace PalworldManager

open Effects

variable {L L' α β : Type} {j : JobId} {d : BackupDirectory}

/-- What others do while job `j` backs up: they leave the records of backups and the
settings as they are, and the end of the job to it. -/
structure Elsewhere (j : JobId) (s s' : World) : Prop where
  backups : s'.backups = s.backups
  settings : s'.settings = s.settings
  timezones : s'.timezones = s.timezones
  job : (s'.jobs.get j).map (fun job => (job.status, job.result)) =
    (s.jobs.get j).map fun job => (job.status, job.result)

/-- What others do elsewhere keeps the rows that are read. -/
theorem framing_elsewhere (j : JobId) : Framing (Elsewhere j) SameRows where
  refl _ := ⟨rfl, rfl, rfl⟩
  trans _ _ _ h h' := ⟨h'.backups.trans h.backups, h'.settings.trans h.settings,
    h'.timezones.trans h.timezones⟩
  rely _ _ h := ⟨h.backups, h.settings, h.timezones⟩
  files _ _ := ⟨rfl, rfl, rfl⟩

section Creation

variable {R K : World → World → Prop} {ℓ : L} {s : World} {tr : List Ev}

/-- What raises ensures anything. -/
theorem ensures_raise {e : Exn} {Q : α → L → World → List Ev → Prop} :
    d.Ensures R (Exec.raise e : Py L α) Q ℓ s tr :=
  (Exec.wp_raise e).mpr trivial

/-- A guard ensures that it let through. -/
theorem ensures_raiseIf {p : Prop} [Decidable p] {e : Exn} {Q : Unit → L → World → List Ev → Prop}
    (h : ¬p → Q () ℓ s tr) : d.Ensures R (Exec.raiseIf p e : Py L Unit) Q ℓ s tr :=
  (Exec.wp_raiseIf p e).mpr ⟨fun _ => trivial, fun hp _ => h hp⟩

/-- An assignment ensures what holds with the new variables. -/
theorem ensures_assign {g : L → L} {Q : Unit → L → World → List Ev → Prop} (h : Q () (g ℓ) s tr) :
    d.Ensures R (Exec.assign g : Py L Unit) Q ℓ s tr :=
  (Exec.wp_assign g).mpr fun _ => h

/-- A function ensures what its body does. -/
theorem ensures_scope {ℓ' : L'} {x : Py L' α} {Q : α → L → World → List Ev → Prop}
    (h : d.Ensures R x (fun a _ => Q a ℓ) ℓ' s tr) :
    d.Ensures R (Exec.scope ℓ' x : Py L α) Q ℓ s tr :=
  (Exec.wp_scope ℓ' x).mpr h

/-- A body with a handler that never returns. -/
theorem ensures_tryCatch {x : Py L α} {f : Exn → Py L α} {Q : α → L → World → List Ev → Prop}
    (h : d.Ensures R x Q ℓ s tr) (hf : ∀ e ℓ s tr, d.Ensures R (f e) Q ℓ s tr) :
    d.Ensures R (Exec.tryCatch x f) Q ℓ s tr :=
  (Exec.wp_tryCatch x f).mpr (Exec.wp_mono h (fun _ _ _ _ hq => hq) fun e ℓ s tr _ => hf e ℓ s tr)

/-- Whatever a body does, nothing holds after it that could fail. -/
theorem ensures_trivial {x : Py L α} : d.Ensures R x (fun _ _ _ _ => True) ℓ s tr := by
  unfold BackupDirectory.Ensures Exec.wp
  refine Prog.safe_of_forall (fun _ _ _ _ => trivial) fun r s tr => ?_
  obtain ⟨r | r, ℓ⟩ := r <;> simp [Exec.outcome]

/-- A query ensures what holds of all that it may read. -/
theorem ensures_query (hK : Framing R K) {f : World → Except Exn α}
    {Q : α → L → World → List Ev → Prop}
    (h : ∀ s₁ a, K s s₁ → f s₁ = .ok a → Q a ℓ s₁ (tr ++ [.tx .read])) :
    d.Ensures R (query f : Py L α) Q ℓ s tr :=
  (wp_query f).mpr fun s₁ hs₁ =>
    ⟨trivial, fun a ha _ => h s₁ a (hK.rely _ _ hs₁) ha, fun _ _ => trivial⟩

/-- A session ensures what holds of all that it may commit. -/
theorem ensures_session (hK : Framing R K) {f : World → Except Exn (α × World)} {label : α → Label}
    {Q : α → L → World → List Ev → Prop}
    (h : ∀ s₁ a s₂, K s s₁ → f s₁ = .ok (a, s₂) → Q a ℓ s₂ (tr ++ [.tx (label a)])) :
    d.Ensures R (session f label : Py L α) Q ℓ s tr :=
  (wp_session f label).mpr fun s₁ hs₁ =>
    ⟨fun a s₂ hf => ⟨trivial, fun _ => h s₁ a s₂ (hK.rely _ _ hs₁) hf⟩,
      fun _ _ => ⟨trivial, trivial⟩⟩

/-- A step that changes neither the tables nor the backup directory. -/
def Stays (s : World) (e : Ev) (s' : World) : Prop := isQuiet e = true ∧ SameRows s s'

/-- Nothing but such steps has happened since a state and its trace. -/
structure Since (s₀ : World) (tr₀ : List Ev) (s : World) (tr : List Ev) : Prop where
  tables : SameRows s₀ s
  quiet : Quietly tr₀ tr

/-- Nothing happened yet. -/
theorem Since.refl (s : World) (tr : List Ev) : Since s tr s tr := ⟨⟨rfl, rfl, rfl⟩, .refl tr⟩

/-- One more step that leaves the files and the records. -/
theorem Since.stays {s₀ s₁ : World} {tr₀ : List Ev} {e : Ev} (h : Since s₀ tr₀ s tr)
    (hs : Stays s e s₁) : Since s₀ tr₀ s₁ (tr ++ [e]) :=
  ⟨(framing_elsewhere 0).trans _ _ _ h.tables hs.2, h.quiet.concat hs.1⟩

/-- What others do in between does not count. -/
theorem Since.rely {s₀ s₁ : World} {tr₀ : List Ev} (h : Since s₀ tr₀ s tr)
    (hs : Elsewhere j s s₁) : Since s₀ tr₀ s₁ tr :=
  ⟨(framing_elsewhere j).trans _ _ _ h.tables ((framing_elsewhere j).rely _ _ hs), h.quiet⟩

/-- A statement of such steps is passed over. -/
theorem ensures_stays {s₀ : World} {tr₀ : List Ev} {x : Py L α}
    {Q : α → L → World → List Ev → Prop} (hx : Exec.Keeps Stays Eq x) (h : Since s₀ tr₀ s tr)
    (hQ : ∀ a s₁ tr₁, Since s₀ tr₀ s₁ tr₁ → Q a ℓ s₁ tr₁) :
    d.Ensures (Elsewhere j) x Q ℓ s tr := by
  refine Exec.wp_mono (Exec.wp_keeps (I := Since s₀ tr₀) hx (fun _ _ _ hs h => h.rely hs)
    (fun _ _ _ _ h hs => ⟨h.stays hs, trivial⟩) h) (fun a ℓ' s₁ tr₁ hq _ => ?_)
    fun _ _ _ _ _ => trivial
  exact hq.1 ▸ hQ a s₁ tr₁ hq.2

/-- After statements that leave the files and the records, the next. -/
theorem ensures_stays_bind {s₀ : World} {tr₀ : List Ev} {x : Py L α} {f : α → Py L β}
    {Q : β → L → World → List Ev → Prop} (hx : Exec.Keeps Stays Eq x) (h : Since s₀ tr₀ s tr)
    (hf : ∀ a s₁ tr₁, Since s₀ tr₀ s₁ tr₁ → d.Ensures (Elsewhere j) (f a) Q ℓ s₁ tr₁) :
    d.Ensures (Elsewhere j) (x >>= f) Q ℓ s tr :=
  ensures_bind (ensures_stays hx h hf)

/-- A quiet call leaves the files and the records. -/
theorem stays_ask {c : Call} (hc : ∀ r, isQuiet (.ask (j, c) r) = true) :
    Exec.Keeps Stays Eq (ask j c : Py L (Reply c)) :=
  Exec.keeps_ask _ fun r _ => ⟨hc r, rfl, rfl, rfl⟩

/-- So does a call of the storage. -/
theorem stays_storage (op : StorageOp) : Exec.Keeps Stays Eq (storage j op : Py L Unit) :=
  Exec.keeps_bind (stays_ask fun _ => rfl) fun _ => keeps_ofReply _

/-- So does the check of the directory. -/
theorem stays_validateControlledDirectory (invalid : Exn) :
    Exec.Keeps Stays Eq (validateControlledDirectory j invalid : Py L Unit) :=
  Exec.keeps_bind (stays_ask fun _ => rfl) fun _ =>
    Exec.keeps_bind (keeps_ofReply _) fun _ => Exec.keeps_raiseIf _ _

/-- So does a query. -/
theorem stays_query (f : World → Except Exn α) : Exec.Keeps Stays Eq (query f : Py L α) := by
  refine Exec.keeps_bind (Exec.keeps_tx _ _ fun s => ?_) fun _ => Exec.keeps_ofExcept _
  dsimp only
  cases f s with
  | error e => exact ⟨rfl, rfl, rfl, rfl⟩
  | ok a => exact ⟨rfl, rfl, rfl, rfl⟩

/-- So does the look for the destination. -/
theorem stays_destinationExists (path : String) :
    Exec.Keeps Stays Eq (destinationExists j path : Py L Bool) :=
  Exec.keeps_bind (stays_query _) fun _ => Exec.keeps_bind (stays_ask fun _ => rfl) fun _ =>
    Exec.keeps_bind (keeps_ofReply _) fun _ => Exec.keeps_pure _

/-- So does a checkpoint. -/
theorem stays_backupCheckpoint (step : String) (n : ℕ) (c : Bool) :
    Exec.Keeps Stays Eq (backupCheckpoint j step n c : Py L Unit) := by
  refine Exec.keeps_bind (Exec.keeps_bind (Exec.keeps_tx _ _ fun s => ⟨rfl, rfl, rfl, rfl⟩)
    fun _ => Exec.keeps_bind (Exec.keeps_ofExcept _) fun _ => ?_) fun _ => Exec.keeps_pure _
  exact Exec.keeps_bind (Exec.keeps_tx _ _ fun s => ⟨rfl, rfl, rfl, rfl⟩) fun _ =>
    Exec.keeps_pure _

/-- So does the preparation of the server. -/
theorem stays_prepareServer (state : PalworldHealthState) :
    Exec.Keeps Stays Eq (prepareServer j (backupCheckpoint j) state : Py L Unit) := by
  cases state with
  | online => exact Exec.keeps_bind (stays_backupCheckpoint _ _ _) fun _ => stays_storage _
  | offline => exact stays_backupCheckpoint _ _ _
  | _ => exact Exec.keeps_raise _

/-- So does the staging of the archive. -/
theorem stays_stageArchive :
    Exec.Keeps Stays Eq (stageArchive j (backupCheckpoint j) : Py L Unit) := by
  have hstep (step : String) (n : ℕ) (op : StorageOp) {rest : Py L Unit}
      (hrest : Exec.Keeps Stays Eq rest) : Exec.Keeps Stays Eq
        (backupCheckpoint j step n true >>= fun _ => storage j op >>= fun _ => rest) :=
    Exec.keeps_bind (stays_backupCheckpoint _ _ _) fun _ =>
      Exec.keeps_bind (stays_storage op) fun _ => hrest
  refine Exec.keeps_bind (stays_backupCheckpoint _ _ _) fun _ => ?_
  refine Exec.keeps_bind (stays_ask fun _ => rfl) fun _ => ?_
  refine Exec.keeps_bind (keeps_ofReply _) fun health => ?_
  refine Exec.keeps_bind (stays_prepareServer health) fun _ => ?_
  refine hstep _ _ _ (hstep _ _ _ (hstep _ _ _ ?_))
  exact Exec.keeps_bind (stays_backupCheckpoint _ _ _) fun _ => stays_storage _

/-- What a backup that was made says of itself, and that its file is there. -/
structure Created (j : JobId) (d : BackupDirectory) (s₀ : World) (tr₀ : List Ev)
    (identity : BackupIdentity) (artifact : BackupArtifact) (s : World) (tr : List Ev) : Prop where
  filename : artifact.filename = backupFilename identity j
  createdAt : artifact.createdAt = identity.createdAt
  managed : isBackupFilename artifact.filename = true
  tables : SameRows s₀ s
  directory : d.after tr =
    (d.after tr₀).set (artifactName (localStoragePath artifact.filename)) (some .file)
  identities : backupIdentities tr = backupIdentities tr₀ ++ [identity]

/-- **The archive is published** under the name of the backup. -/
theorem ensures_publishArchive {s₀ : World} {tr₀ : List Ev} {ℓ : Bool} {identity : BackupIdentity}
    {filename : String} {Q : BackupArtifact → Bool → World → List Ev → Prop}
    (h : Since s₀ tr₀ s tr)
    (hQ : ∀ artifact ℓ s₁ tr₁, artifact.filename = filename →
      artifact.createdAt = identity.createdAt → SameRows s₀ s₁ →
      d.after tr₁ = (d.after tr₀).set (artifactName (localStoragePath filename)) (some .file) →
      backupIdentities tr₁ = backupIdentities tr₀ → Q artifact ℓ s₁ tr₁) :
    d.Ensures (Elsewhere j) (publishArchive j identity filename (backupCheckpoint j)) Q ℓ s tr := by
  unfold publishArchive
  refine ensures_stays_bind (stays_backupCheckpoint _ _ _) h fun _ s tr h => ?_
  refine ensures_stays_bind (stays_ask fun _ => rfl) h fun _ s tr h => ?_
  refine ensures_stays_bind (keeps_ofReply _) h fun manifestId s tr h => ?_
  refine ensures_stays_bind (Exec.keeps_raiseIf _ _) h fun _ s tr h => ?_
  refine ensures_stays_bind (stays_ask fun _ => rfl) h fun _ s tr h => ?_
  refine ensures_stays_bind (keeps_ofReply _) h fun digest s tr h => ?_
  refine ensures_stays_bind (stays_ask fun _ => rfl) h fun _ s tr h => ?_
  refine ensures_stays_bind (keeps_ofReply _) h fun sizeBytes s tr h => ?_
  refine ensures_stays_bind (stays_backupCheckpoint _ _ _) h fun _ s tr h => ?_
  refine ensures_stays_bind (stays_destinationExists _) h fun present s tr h => ?_
  refine ensures_stays_bind (Exec.keeps_raiseIf _ _) h fun _ s tr h => ?_
  refine ensures_stays_bind (stays_storage _) h fun _ s tr h => ?_
  refine ensures_bind ((Exec.wp_tx _ _).mpr fun s' hs' => ⟨trivial, fun _ => ?_⟩)
  have htables : SameRows s₀ { s' with
      localFiles := Function.update s'.localFiles (localStoragePath filename) (some j) } := by
    have := (h.rely hs').tables
    exact ⟨this.backups, this.settings, this.timezones⟩
  set trp := tr ++ [Event.tx (Label.published j .local (localStoragePath filename))] with htrp
  have hd : d.after trp =
      (d.after tr₀).set (artifactName (localStoragePath filename)) (some .file) := by
    simp [htrp, BackupDirectory.step, h.quiet.after]
  have hi : backupIdentities trp = backupIdentities tr₀ := by
    simp [htrp, backupIdentity, h.quiet.backupIdentities]
  refine ensures_stays_bind (stays_storage _) (.refl _ trp) fun _ s tr h => ?_
  refine ensures_bind (ensures_assign ?_)
  refine ensures_stays_bind (stays_ask fun _ => rfl) h fun _ s tr h => ?_
  refine ensures_stays_bind (keeps_ofReply _) h fun _ s tr h => ?_
  refine ensures_stays_bind (stays_ask fun _ => rfl) h fun _ s tr h => ?_
  refine ensures_stays_bind (keeps_ofReply _) h fun published s tr h => ?_
  refine ensures_stays_bind (Exec.keeps_raiseIf _ _) h fun _ s tr h => ensures_pure ?_
  exact hQ _ _ s tr rfl rfl ((framing_elsewhere j).trans _ _ _ htables h.tables)
    (h.quiet.after.trans hd) (h.quiet.backupIdentities.trans hi)

/-- What a call of `create` that returns has done. -/
theorem ensures_createBackup {Q : BackupArtifact → L → World → List Ev → Prop}
    (hQ : ∀ identity artifact s₁ tr₁, Created j d s tr identity artifact s₁ tr₁ →
      Q artifact ℓ s₁ tr₁) :
    d.Ensures (Elsewhere j) (createBackup j (backupCheckpoint j)) Q ℓ s tr := by
  unfold createBackup
  refine ensures_scope ?_
  refine ensures_stays_bind (Exec.keeps_raiseIf _ _) (.refl s tr) fun _ s₀ tr₀ h₀ => ?_
  refine ensures_bind (ensures_ask fun s₁ identity hs₁ _ => ?_)
  have htables : SameRows s s₁ := (h₀.rely hs₁).tables
  set tr₁ := tr₀ ++ [Event.ask (j, Call.identity) identity] with htr₁
  have hd₁ : d.after tr₁ = d.after tr := by
    simp [htr₁, BackupDirectory.step, h₀.quiet.after]
  have hi₁ : backupIdentities tr₁ = backupIdentities tr ++ [identity] := by
    simp [htr₁, backupIdentity, h₀.quiet.backupIdentities]
  unfold createNamed
  refine ensures_bind (ensures_raiseIf fun hname => ?_)
  refine ensures_stays_bind (stays_storage _) (.refl s₁ tr₁) fun _ s tr h => ?_
  refine ensures_stays_bind (stays_validateControlledDirectory _) h fun _ s tr h => ?_
  refine ensures_stays_bind (stays_validateControlledDirectory _) h fun _ s tr h => ?_
  refine ensures_stays_bind (stays_storage _) h fun _ s tr h => ?_
  refine ensures_tryCatch ?_ fun e ℓ s tr => ?_
  · unfold createArchive
    refine ensures_stays_bind stays_stageArchive h fun _ s tr h => ?_
    refine ensures_publishArchive h fun artifact ℓ s₂ tr₂ hf hc hs₂ hd₂ hi₂ => hQ identity _ _ _ ?_
    refine ⟨hf, hc, ?_, (framing_elsewhere j).trans _ _ _ htables hs₂, ?_, hi₂.trans hi₁⟩
    · rw [hf]
      simpa using hname
    · rw [hd₂, hd₁, hf]
  · refine ensures_bind ((Exec.wp_locals).mpr fun _ => ?_)
    cases ℓ with
    | true => exact ensures_bind (ensures_mono ensures_trivial fun _ _ _ _ _ => ensures_raise)
    | false => exact ensures_raise

end Creation

section Rank

/-- The path of no local record names a file. -/
def World.Unnamed (s : World) (filename : String) : Prop :=
  ∀ i r, s.backups.get i = some r → r.location = .local → artifactName r.storagePath ≠ filename

/-- The path of a backup is told by its name. -/
theorem artifactName_localStoragePath {filename : String} (h : isBackupFilename filename = true) :
    artifactName (localStoragePath filename) = filename := by
  simp [artifactName, pathParts_localStoragePath h]

/-- Of records in the order of the retention, one with the largest identifier is as far
down as there are records that were made later. -/
theorem mem_drop_iff_later {rs : List (ℕ × BackupRecord)} (hsorted : rs.Pairwise NewerFirst)
    (hids : (rs.map Prod.fst).Nodup) {x : ℕ × BackupRecord} (hx : x ∈ rs)
    (hlast : ∀ y ∈ rs, y.1 ≤ x.1) (n : ℕ) :
    x ∈ rs.drop n ↔ n ≤ (rs.filter fun y => x.2.createdAt < y.2.createdAt).length := by
  obtain ⟨newer, older, rfl⟩ := List.append_of_mem hx
  obtain ⟨-, hsorted', hcross⟩ := List.pairwise_append.mp hsorted
  rw [List.map_append, List.nodup_append'] at hids
  obtain ⟨-, hids', hdisjoint⟩ := hids
  have hnewer : ∀ y ∈ newer, x.2.createdAt < y.2.createdAt := fun y hy => by
    have hrank : NewerFirst y x := hcross y hy x List.mem_cons_self
    have hle := hlast y (List.mem_append_left _ hy)
    have hne : y.1 ≠ x.1 := fun h =>
      hdisjoint (List.mem_map_of_mem hy) (h ▸ List.mem_map_of_mem List.mem_cons_self)
    unfold NewerFirst at hrank
    omega
  have holder : ∀ y ∈ x :: older, ¬x.2.createdAt < y.2.createdAt := fun y hy => by
    rcases List.mem_cons.mp hy with rfl | hy
    · omega
    · have hrank : NewerFirst x y := (List.pairwise_cons.mp hsorted').1 y hy
      unfold NewerFirst at hrank
      omega
  have hcount : ((newer ++ x :: older).filter fun y => x.2.createdAt < y.2.createdAt) = newer := by
    rw [List.filter_append, List.filter_eq_self.mpr fun y hy => decide_eq_true (hnewer y hy),
      List.filter_eq_nil_iff.mpr fun y hy => by simpa using holder y hy, List.append_nil]
  rw [hcount]
  constructor
  · intro hmem
    by_contra hlt
    have hrest : x ∈ older.drop (n - newer.length - 1) := by
      rw [List.drop_append, List.drop_eq_nil_of_le (by omega), List.nil_append,
        List.drop_cons (by omega)] at hmem
      exact hmem
    have hnot : x.1 ∉ older.map Prod.fst := (List.nodup_cons.mp hids').1
    exact hnot (List.mem_map_of_mem (List.mem_of_mem_drop hrest))
  · intro hle
    rw [List.drop_append_of_le_length hle]
    exact List.mem_append_right _ List.mem_cons_self

/-- The managed local records made after some time, by their own account. -/
def laterRecords (d : BackupDirectory) (s : World) (time : ℕ) : List (ℕ × BackupRecord) :=
  (managedLocalRecords d s).filter fun r => time < r.2.createdAt

variable {s s' : World} {artifact : BackupArtifact}

/-- Another file does not matter to what is managed. -/
theorem BackupDirectory.manages_set_ne {name path : String} {x : Option DirEntry}
    (h : artifactName path ≠ name) : (d.set name x).manages path = d.manages path := by
  simp [BackupDirectory.manages, BackupDirectory.set, h]

/-- The managed records after a registration: the new one, and those there were. -/
theorem mem_managedLocalRecords_insertRecord {id : ℕ}
    (hunnamed : s.Unnamed artifact.filename)
    (hinsert : s.insertRecord id (artifact.record j) = .ok s') (x : ℕ × BackupRecord) :
    x ∈ managedLocalRecords (d.set artifact.filename (some .file)) s' ↔
      (x = (id, artifact.record j) ∧
        (d.set artifact.filename (some .file)).manages artifact.storagePath = true) ∨
      x ∈ managedLocalRecords d s := by
  obtain ⟨hfree, -, hs'⟩ := insertRecord_eq_ok hinsert
  obtain ⟨i, r⟩ := x
  rw [mem_managedLocalRecords, mem_managedLocalRecords, hs', Table.get_insertAt]
  by_cases hi : i = id
  · subst hi
    simp only [if_true, hfree, reduceCtorEq, false_and, or_false, Option.some.injEq, Prod.mk.injEq,
      true_and]
    constructor
    · rintro ⟨rfl, -, -, hmanages⟩
      exact ⟨rfl, hmanages⟩
    · rintro ⟨rfl, hmanages⟩
      exact ⟨rfl, rfl, rfl, hmanages⟩
  · have hne : ¬((i, r) = (id, artifact.record j)) := fun h => hi (Prod.ext_iff.mp h).1
    simp only [if_neg hi, hne, false_and, false_or]
    refine and_congr_right fun hr => and_congr_right fun hlocal => and_congr_right fun _ => ?_
    rw [BackupDirectory.manages_set_ne (hunnamed i r hr hlocal)]

/-- A new record is no later than itself. -/
theorem length_laterRecords_insertRecord {id : ℕ}
    (hunnamed : s.Unnamed artifact.filename)
    (hinsert : s.insertRecord id (artifact.record j) = .ok s') :
    (laterRecords (d.set artifact.filename (some .file)) s' artifact.createdAt).length =
      (laterRecords d s artifact.createdAt).length := by
  have hnodup (d : BackupDirectory) (s : World) : (laterRecords d s artifact.createdAt).Nodup :=
    (nodup_managedLocalRecords d s).of_map.filter _
  refine ((List.perm_ext_iff_of_nodup (hnodup _ _) (hnodup _ _)).mpr fun x => ?_).length_eq
  rw [laterRecords, laterRecords, List.mem_filter, List.mem_filter,
    mem_managedLocalRecords_insertRecord hunnamed hinsert, decide_eq_true_eq]
  constructor
  · rintro ⟨⟨rfl, -⟩ | hx, hlater⟩
    · exact absurd hlater (Nat.lt_irrefl _)
    · exact ⟨hx, hlater⟩
  · exact fun ⟨hx, hlater⟩ => ⟨.inr hx, hlater⟩

/-- **The rank of a new record.**  A retention that protects nothing removes it if and only if
so many managed records were made later. -/
theorem mem_removedRecords_insertRecord_iff {retention : ℕ} (hpos : 1 ≤ retention)
    (hunnamed : s.Unnamed artifact.filename)
    (hname : isBackupFilename artifact.filename = true)
    (hinsert : s.insertRecord s.backups.nextId (artifact.record j) = .ok s') :
    (s.backups.nextId, artifact.record j) ∈ removedRecords
        (managedLocalRecords (d.set artifact.filename (some .file)) s') retention [] ↔
      retention ≤ (laterRecords d s artifact.createdAt).length := by
  set d' := d.set artifact.filename (some .file) with hd'
  have hmem := mem_managedLocalRecords_insertRecord (d := d) hunnamed hinsert
  have hids := nodup_managedLocalRecords d' s'
  have hcut : removedRecords (managedLocalRecords d' s') retention [] =
      (managedLocalRecords d' s').drop retention := by
    rw [removedRecords_eq hids]
    simp
  rw [hcut]
  by_cases hmanages : d'.manages artifact.storagePath = true
  · have hsorted : (managedLocalRecords d' s').Pairwise NewerFirst :=
      (s'.backups.pairwise_select _ _).filter _
    have hown := (hmem (s.backups.nextId, artifact.record j)).mpr (.inl ⟨rfl, hmanages⟩)
    rw [mem_drop_iff_later hsorted hids hown ?_, ← length_laterRecords_insertRecord hunnamed hinsert]
    · rfl
    · intro y hy
      rcases (hmem y).mp hy with ⟨rfl, -⟩ | hold
      · exact le_rfl
      · exact (Table.lt_nextId (mem_managedLocalRecords.mp hold).1).le
  · have hcontrolled : d.controlled = false := by
      have hpath : isManagedPath artifact.storagePath = true :=
        artifact.placed ▸ isManagedPath_localStoragePath hname
      have hentry : d'.entry (artifactName artifact.storagePath) = some .file := by
        rw [artifact.placed, artifactName_localStoragePath hname]
        exact Function.update_self ..
      have hsame : d'.controlled = d.controlled := rfl
      simpa [BackupDirectory.manages, hpath, hentry, hsame] using hmanages
    have hnone (d : BackupDirectory) (s : World) (h : d.controlled = false) :
        managedLocalRecords d s = [] :=
      List.filter_eq_nil_iff.mpr fun r _ => by simp [BackupDirectory.manages, h]
    have hzero : (laterRecords d s artifact.createdAt).length = 0 := by
      rw [laterRecords, hnone d s hcontrolled, List.filter_nil, List.length_nil]
    rw [hnone d' s' hcontrolled, List.drop_nil, hzero]
    exact ⟨fun h => absurd h List.not_mem_nil, fun h => by omega⟩

end Rank

section Survival

variable {ℓ : L} {s₀ s : World} {tr : List Ev} {artifact : BackupArtifact} {identity : BackupIdentity}
  {retention : ℕ}

/-- The record named in the result of a job exists, and its file. -/
def KeepsOwn (d : BackupDirectory) (j : JobId) (s : World) (tr : List Ev) : Prop :=
  ∃ job id record, s.jobs.get j = some job ∧ job.data.value "backup_record_id" = .int (id : ℕ) ∧
    s.backups.get id = some record ∧ (d.after tr).isFile record.storagePath = true

/-- What is said of a backup that succeeded: which time it has, and whether it kept its own
backup, if no other record names its file. -/
def OwnBackup (d : BackupDirectory) (s₀ : World) (retention : ℕ) (j : JobId) (s : World)
    (tr : List Ev) : Prop :=
  ∃ identity, backupIdentities tr = [identity] ∧ (s₀.Unnamed (backupFilename identity j) →
    (KeepsOwn d j s tr ↔ (laterRecords d s₀ identity.createdAt).length < retention))

/-- What others do elsewhere leaves the own backup. -/
theorem Elsewhere.ownBackup {s' : World} (h : Elsewhere j s s')
    (ho : OwnBackup d s₀ retention j s tr) : OwnBackup d s₀ retention j s' tr := by
  obtain ⟨identity, hi, hiff⟩ := ho
  refine ⟨identity, hi, fun hunnamed => Iff.trans ?_ (hiff hunnamed)⟩
  have hjob := h.job
  unfold KeepsOwn
  rw [h.backups]
  cases hs : s.jobs.get j with
  | none => simp_all
  | some job =>
    cases hs' : s'.jobs.get j with
    | none => simp [hs, hs'] at hjob
    | some job' =>
      obtain ⟨-, hresult⟩ : job'.status = job.status ∧ job'.result = job.result := by
        simpa [hs, hs'] using hjob
      simp [Job.data, hresult]

/-- The managed records are told by the records. -/
theorem managedLocalRecords_congr {s' : World} (h : s'.backups = s.backups) :
    managedLocalRecords d s' = managedLocalRecords d s := by
  rw [managedLocalRecords, managedLocalRecords, World.validRecords, World.validRecords, h]

/-- The retention is told by the settings. -/
theorem SameRows.configuredLocalRetention {s' : World} (h : SameRows s s') :
    configuredLocalRetention s' = configuredLocalRetention s := by
  rw [PalworldManager.configuredLocalRetention, PalworldManager.configuredLocalRetention,
    loadManagerSettings, loadManagerSettings, h.settings, h.timezones]

/-- The retention keeps one backup at least. -/
theorem configuredLocalRetention_pos (h : configuredLocalRetention s = .ok retention) :
    1 ≤ retention := by
  obtain ⟨v, -, rfl⟩ := except_map_eq_ok.mp h
  exact v.localBackupRetention.2.1

/-- What the commit of a backup writes of its record. -/
theorem commitBackup_get {automatic : Bool} {trigger : String} {id : ℕ} {deleted : List ℕ}
    {s' : World} {p : JobStatus × JobStatus}
    (h : commitBackup automatic j trigger artifact id deleted s = .ok (p, s')) :
    (∃ job, s'.jobs.get j = some job ∧ job.data.value "backup_record_id" = .int (id : ℕ)) ∧
      s'.backups.get id = if id ∈ deleted then none else some (artifact.record j) := by
  obtain ⟨job, s₁, s₂, upload, hj, -, hinsert, hs₂, rfl⟩ := commitBackup_eq_ok h
  obtain ⟨hfree, -, rfl⟩ := insertRecord_eq_ok hinsert
  have hbackups : s₂.backups = (s.backups.insertAt id (artifact.record j) hfree).keep
      fun i _ => i ∉ deleted := by
    rcases hs₂ with rfl | ⟨i, -, new, -, -, rfl⟩
    · rfl
    · rfl
  have hjob : ∃ job, s₂.jobs.get j = some job := by
    rcases hs₂ with rfl | ⟨i, -, new, -, -, rfl⟩
    · exact ⟨job, hj⟩
    · exact ⟨job, Table.get_add_of_some hj⟩
  obtain ⟨job', hj'⟩ := hjob
  refine ⟨⟨_, by rw [World.modifyJob_get_self, hj']; rfl, ?_⟩, ?_⟩
  · simp [Job.finishBackup, Job.data, Dict.value, List.lookup]
  · rw [World.modifyJob_backups, hbackups, Table.get_keep, Table.get_insertAt, if_pos rfl]
    by_cases hid : id ∈ deleted <;> simp [hid]

/-- The record of a backup, its file and its rank, at the end of its session. -/
theorem ownBackup_commit {automatic : Bool} {trigger : String} {s₁ s₂ s₃ s₄ : World}
    {tr₁ tr₂ tr₃ : List Ev} {removed : List (ℕ × BackupRecord)} {p : JobStatus × JobStatus}
    (hretention : configuredLocalRetention s₀ = .ok retention)
    (hcreated : Created j d s₀ [] identity artifact s₁ tr₁) (hsame : s₂.backups = s₀.backups)
    (hinsert : s₂.insertRecord s₂.backups.nextId (artifact.record j) = .ok s₃)
    (hremoved : removed = removedRecords
      (managedLocalRecords (d.set artifact.filename (some .file)) s₃) retention [])
    (hquiet : Quietly tr₁ tr₂) (hremoval : Removal d removed tr₂ tr₃)
    (hcommit : commitBackup automatic j trigger artifact s₂.backups.nextId
      (removed.map Prod.fst) s = .ok (p, s₄)) {tr₄ : List Ev} (hlast : Quietly tr₃ tr₄) :
    OwnBackup d s₀ retention j s₄ tr₄ := by
  obtain ⟨⟨job, hj, hvalue⟩, hget⟩ := commitBackup_get hcommit
  set id := s₂.backups.nextId with hid
  have hidentity : backupIdentities tr₄ = [identity] := by
    rw [hlast.backupIdentities, hremoval.identities, hquiet.backupIdentities, hcreated.identities]
    rfl
  refine ⟨identity, hidentity, fun hunnamed₀ => ?_⟩
  have hunnamed : s₂.Unnamed artifact.filename := by
    rw [hcreated.filename, World.Unnamed, hsame]
    exact hunnamed₀
  have hmem := mem_managedLocalRecords_insertRecord (d := d) hunnamed hinsert
  have hrank := mem_removedRecords_insertRecord_iff (d := d)
    (configuredLocalRetention_pos hretention) hunnamed hcreated.managed hinsert
  rw [← hremoved, laterRecords, managedLocalRecords_congr hsame, ← laterRecords,
    hcreated.createdAt] at hrank
  have hmanaged : ∀ x ∈ removed, x = (id, artifact.record j) ∨ x ∈ managedLocalRecords d s₂ :=
    fun x hx => ((hmem x).mp (List.mem_of_mem_filter (hremoved ▸ hx))).imp_left And.left
  have hdeleted : id ∈ removed.map Prod.fst ↔ (id, artifact.record j) ∈ removed := by
    refine ⟨fun h => ?_, fun h => List.mem_map_of_mem h⟩
    obtain ⟨x, hx, hxid⟩ := List.mem_map.mp h
    rcases hmanaged x hx with rfl | hold
    · exact hx
    · have hsome := (mem_managedLocalRecords.mp hold).1
      rw [hxid, hid, Table.get_nextId] at hsome
      cases hsome
  refine Iff.trans (b := (id, artifact.record j) ∉ removed) ?_ ?_
  · constructor
    · rintro ⟨job', id', record, hj', hvalue', hget', -⟩ hown
      obtain rfl : job' = job := Option.some.inj (hj'.symm.trans hj)
      have hvalues : (id' : ℤ) = id := Value.int.inj (hvalue'.symm.trans hvalue)
      obtain rfl : id' = id := by omega
      rw [hget, if_pos (hdeleted.mpr hown)] at hget'
      cases hget'
    · intro hown
      rw [if_neg fun h => hown (hdeleted.mp h)] at hget
      refine ⟨job, id, artifact.record j, hj, hvalue, hget, ?_⟩
      have hpath : artifactName (artifact.record j).storagePath = artifact.filename :=
        (congrArg artifactName artifact.placed).trans (artifactName_localStoragePath hcreated.managed)
      have hothers : ∀ x ∈ removed, artifactName x.2.storagePath ≠ artifact.filename := by
        intro x hx
        have hold := (hmanaged x hx).resolve_left fun h => hown (h ▸ hx)
        obtain ⟨hxget, hxlocal, -⟩ := mem_managedLocalRecords.mp hold
        exact hunnamed _ _ hxget hxlocal
      rw [BackupDirectory.isFile, hpath, hlast.after, hremoval.others _ hothers, hquiet.after,
        hcreated.directory, artifactName_localStoragePath hcreated.managed]
      simp [BackupDirectory.set]
  · rw [hrank]
    omega

/-- A backup that returns has kept its own backup as the rank of its record says. -/
theorem ensures_runLocalBackup
    (hretention : configuredLocalRetention s₀ = .ok retention) (automatic : Bool) (trigger : String)
    {ℓ : Option BackupArtifact} (h : Since s₀ [] s tr) :
    d.Ensures (Elsewhere j) (runLocalBackup automatic j trigger)
      (fun _ _ s tr => OwnBackup d s₀ retention j s tr) ℓ s tr := by
  have hK := framing_elsewhere j
  unfold runLocalBackup
  refine ensures_bind (ensures_createBackup fun identity artifact s₁ tr₁ hcreated => ?_)
  have hcreated' : Created j d s₀ [] identity artifact s₁ tr₁ :=
    { filename := hcreated.filename
      createdAt := hcreated.createdAt
      managed := hcreated.managed
      tables := hK.trans _ _ _ h.tables hcreated.tables
      directory := by rw [hcreated.directory, h.quiet.after]
      identities := by rw [hcreated.identities, h.quiet.backupIdentities] }
  refine ensures_bind (ensures_assign ?_)
  refine ensures_bind (ensures_session hK fun s₂ registered s₃ hs₂ hflush => ?_)
  obtain ⟨r, hregister, hr⟩ := except_map_eq_ok.mp hflush
  obtain ⟨rfl, rfl⟩ : r = registered ∧ s₂ = s₃ := by simpa using hr
  obtain ⟨sᵢ, hinsert, hr⟩ := except_bind_eq_ok.mp hregister
  obtain rfl : (s₂.backups.nextId, sᵢ.validRecords .local) = r := by
    simpa [Pure.pure, Except.pure] using hr
  have hs₀₂ := hK.trans _ _ _ hcreated'.tables hs₂
  refine ensures_bind (ensures_query hK fun s₄ n hs₄ hn => ?_)
  have hs₀₄ := hK.trans _ _ _ hs₀₂ hs₄
  obtain rfl : retention = n :=
    Except.ok.inj (hretention.symm.trans (hs₀₄.configuredLocalRetention ▸ hn))
  set tr₂ := tr₁ ++ [Event.tx (Label.staged j s₂.backups.nextId)] ++ [Event.tx Label.read] with htr₂
  have hquiet : Quietly tr₁ tr₂ := ((Quietly.refl tr₁).concat rfl).concat rfl
  refine ensures_bind (ensures_applyLocalRetention hK _ retention [] fun removed hremoved => ?_)
  intro s₅ tr₅ hs₅ hremoval
  rw [hquiet.after, hcreated'.directory, artifactName_localStoragePath hcreated.managed] at hremoved
  refine ensures_bind (ensures_stays_bind (stays_storage _) (.refl s₅ tr₅) fun _ s₆ tr₆ h₆ => ?_)
  refine ensures_session hK fun s₇ p s₈ hs₇ hcommit => ensures_pure ?_
  exact ownBackup_commit hretention hcreated' hs₀₂.backups hinsert hremoved hquiet
    hremoval hcommit (h₆.quiet.concat rfl)

end Survival

section Execution

open Exec hiding bind ask

variable {V : L → L → Prop} {ℓ : L} {s s' : World} {tr : List Ev} {e : Ev}
  {G : World → List Ev → Ev → World → Prop}

/-- The job is there and has not succeeded. -/
def Unsucceeded (j : JobId) (s : World) : Prop :=
  ∃ job, s.jobs.get j = some job ∧ job.status ≠ .succeeded

/-- What others do elsewhere does not end the job. -/
theorem Elsewhere.unsucceeded (h : Elsewhere j s s') (hs : Unsucceeded j s) : Unsucceeded j s' := by
  obtain ⟨job, hj, hstatus⟩ := hs
  have hjob := h.job
  rw [hj] at hjob
  obtain ⟨job', hj', hpair⟩ := Option.map_eq_some_iff.mp hjob
  have hsame : job'.status = job.status := (Prod.ext_iff.mp hpair).1
  exact ⟨job', hj', hsame ▸ hstatus⟩

/-- Neither does the executor, but with its end. -/
theorem Acts.unsucceeded (h : Acts (· ≠ .finish) j s e s') (hs : Unsucceeded j s) :
    Unsucceeded j s' := by
  obtain ⟨job, hj, hstatus⟩ := hs
  obtain ⟨job', hj', -, hsame⟩ := (h.1.progress h.2).row job hj
  exact ⟨job', hj', hsame ▸ hstatus⟩

/-- A statement that does not end the job is passed over. -/
theorem wp_unsucceeded_bind {x : Py L α} {f : α → Py L β} {Q : β → L → World → List Ev → Prop}
    (hx : Keeps (Acts (· ≠ .finish) j) anyLocals x) (h : Unsucceeded j s)
    (hf : ∀ a ℓ s tr, Unsucceeded j s →
      wp (Elsewhere j) (fun _ _ _ _ => True) (f a) Q (fun _ _ s _ => Unsucceeded j s) ℓ s tr) :
    wp (Elsewhere j) (fun _ _ _ _ => True) (x >>= f) Q (fun _ _ s _ => Unsucceeded j s) ℓ s tr :=
  wp_keeps_bind (I := fun s _ => Unsucceeded j s) hx (fun _ _ _ hs h => hs.unsucceeded h)
    (fun _ _ _ _ h hs => ⟨hs.unsucceeded h, trivial⟩) h (fun _ _ _ _ _ h => h)
    fun a ℓ s tr _ h => hf a ℓ s tr h

/-- A backup whose steps raise has not succeeded. -/
theorem wp_runLocalBackup_raises (automatic : Bool) (trigger : String)
    {ℓ : Option BackupArtifact} (h : Unsucceeded j s) :
    wp (Elsewhere j) (fun _ _ _ _ => True) (runLocalBackup automatic j trigger)
      (fun _ _ _ _ => True) (fun _ _ s _ => Unsucceeded j s) ℓ s tr := by
  unfold runLocalBackup
  refine wp_unsucceeded_bind (keeps_createBackup nofun nofun fun step n c =>
    keeps_backupCheckpoint (by cases c <;> nofun) step n) h fun artifact ℓ s tr h => ?_
  refine wp_unsucceeded_bind (keeps_assign _ fun _ => trivial) h fun _ ℓ s tr h => ?_
  refine wp_unsucceeded_bind (keeps_flushArtifact nofun nofun _) h fun registered ℓ s tr h => ?_
  refine wp_unsucceeded_bind (keeps_query nofun _) h fun retention ℓ s tr h => ?_
  refine wp_unsucceeded_bind (keeps_applyLocalRetention nofun _ _ _) h fun deleted ℓ s tr h => ?_
  rw [wp_bind, commitSession]
  refine wp_unsucceeded_bind (keeps_storage _ nofun) h fun _ ℓ s tr h => ?_
  refine (wp_session _ _).mpr fun s₁ hs₁ => ⟨fun p s₂ hcommit => ⟨trivial, ?_⟩, fun e he => ?_⟩
  · exact (wp_pure _).mpr trivial
  · exact ⟨trivial, hs₁.unsucceeded h⟩

/-- The handlers of a backup leave it unsucceeded, however they end. -/
theorem wp_handleLocalBackup (e : Exn) {ℓ : Option BackupArtifact} (h : Unsucceeded j s) :
    wp (Elsewhere j) (fun _ _ _ _ => True) (handleLocalBackup j e)
      (fun _ _ s _ => Unsucceeded j s) (fun _ _ s _ => Unsucceeded j s) ℓ s tr := by
  have hfinish (status : JobStatus) (step error : String) (hstatus : status ≠ .succeeded)
      {ℓ : Option BackupArtifact} {s : World} {tr : List Ev} (h : Unsucceeded j s) :
      wp (Elsewhere j) (fun _ _ _ _ => True) (finishJob j (Job.finishFailed status step error))
        (fun _ _ s _ => Unsucceeded j s) (fun _ _ s _ => Unsucceeded j s) ℓ s tr := by
    refine (wp_finishJob j _).mpr fun s₁ hs₁ => ⟨fun job hj => ⟨trivial, ?_⟩, fun hnone => ?_⟩
    · exact ⟨Job.finishFailed status step error job, by simp [hj], hstatus⟩
    · exact ⟨trivial, hs₁.unsucceeded h⟩
  unfold handleLocalBackup
  split
  · exact hfinish .cancelled _ _ nofun h
  · refine wp_unsucceeded_bind keeps_locals h fun artifact ℓ s tr h => ?_
    refine wp_unsucceeded_bind (keeps_removeUnregistered nofun _) h fun _ ℓ s tr h => ?_
    rw [wp_bind]
    exact wp_mono (hfinish .failed _ _ nofun h) (fun _ _ _ _ h => (wp_raise _).mpr h) fun _ _ _ _ h => h

/-- The end of `execute`: a job that succeeded has kept its own backup as the rank of its
record says, and one that raised has not succeeded. -/
theorem wp_executeLocalBackup {s₀ : World} {retention : ℕ} (automatic : Bool)
    (hretention : configuredLocalRetention s₀ = .ok retention) (h : Unsucceeded j s₀) :
    wp (Elsewhere j) (fun _ _ _ _ => True) (executeLocalBackup automatic j)
      (fun _ _ s tr => Unsucceeded j s ∨ (d.Agrees tr → OwnBackup d s₀ retention j s tr))
      (fun _ _ s _ => Unsucceeded j s) ℓ s₀ [] := by
  unfold executeLocalBackup
  rw [wp_scope, wp_bind, wp_query]
  refine fun s₁ hs₁ => ⟨trivial, fun trigger _ => ?_, fun _ _ => hs₁.unsucceeded h⟩
  have hsince : Since s₀ [] s₁ ([] ++ [Event.tx Label.read]) :=
    ((Since.refl s₀ []).rely hs₁).stays ⟨rfl, rfl, rfl, rfl⟩
  have hboth := wp_and
    (ensures_runLocalBackup (d := d) (j := j) (ℓ := none) hretention automatic trigger hsince)
    (wp_runLocalBackup_raises automatic trigger (hs₁.unsucceeded h))
  rw [wp_tryCatch]
  refine wp_mono (wp_guarantee hboth fun _ _ _ _ _ => trivial) (fun _ _ _ _ hq => .inr hq.1)
    fun e ℓ s tr hq => ?_
  exact wp_mono (wp_handleLocalBackup e hq.2) (fun _ _ _ _ h => .inl h) fun _ _ _ _ h => h

/-- **A successful backup keeps its own backup** if and only if fewer managed local records
than the retention were made later than it, by their own account.  No local record there was has
the path of the new file. -/
theorem executeLocalBackup_keepsOwn_iff {automatic : Bool} {s₀ : World} {retention : ℕ}
    {r : Except Exn Unit} {ℓ' : L} {identity : BackupIdentity}
    (hunnamed : s₀.Unnamed (backupFilename identity j))
    (hretention : configuredLocalRetention s₀ = .ok retention)
    (hstart : (s₀.jobs.get j).map Job.status = some .running)
    (hrun : Prog.Run (Elsewhere j) s₀ (executeLocalBackup automatic j ℓ) tr s (.ret (r, ℓ')))
    (hagrees : d.Agrees tr) (hend : (s.jobs.get j).map Job.status = some .succeeded)
    (hidentity : identity ∈ backupIdentities tr) :
    KeepsOwn d j s tr ↔ (laterRecords d s₀ identity.createdAt).length < retention := by
  have hun : Unsucceeded j s₀ := by
    obtain ⟨job, hj, hstatus⟩ := Option.map_eq_some_iff.mp hstart
    exact ⟨job, hj, by simp [hstatus]⟩
  have hnot : ¬Unsucceeded j s := by
    rintro ⟨job, hj, hstatus⟩
    exact hstatus (by simpa [hj] using hend)
  have hsafe := hrun.safe (fun s => ⟨rfl, rfl, rfl, rfl⟩)
    (fun a b c h h' => ⟨h'.backups.trans h.backups, h'.settings.trans h.settings,
      h'.timezones.trans h.timezones, h'.job.trans h.job⟩)
    (fun
      | (.ok _, _), s, s', tr, hs, h => h.imp hs.unsucceeded fun h ha => hs.ownBackup (h ha)
      | (.error _, _), s, s', tr, hs, h => hs.unsucceeded h)
    (safe_of_wp (wp_executeLocalBackup (d := d) automatic hretention hun))
  cases r with
  | error e => exact absurd hsafe hnot
  | ok u =>
    obtain ⟨identity', hone, hiff⟩ := (Or.resolve_left hsafe hnot) hagrees
    rw [List.nil_append] at hone
    rw [hone, List.mem_singleton] at hidentity
    subst hidentity
    exact hiff hunnamed

section Sample

/-- A backup that is running, with one backup kept, made at time 4. -/
def oneKept : World :=
  { World.withRecords ⟨[(1, sampleRecord "04" 4)], by decide⟩ [("local_backup_retention", .int 1)] with
    timezones := ["America/Sao_Paulo"]
    jobs := ⟨[(1,
      { kind := .localBackup
        status := .running
        step := "WAITING"
        progress := 0
        isCancellable := true
        cancelRequested := false
        executeNowRequested := false
        requiresMaintenanceLock := true
        coordinationKey := some .localBackup
        requestedByUserId := none
        claimedBy := none
        createdAt := 0
        result := some [("trigger", .str "MANUAL")]
        logPath := none })], by decide⟩ }

/-- Its backup directory. -/
def oneKeptDirectory : BackupDirectory where
  controlled := true
  entry name := if name = sampleFilename "04" then some .file else none

/-- The answers to a backup that is made at some time, by the clock of the host. -/
def oneKeptOracle (time : ℕ) : (c : Asked) → Option (Reply c.2)
  | (_, .identity) => some ⟨time, "20250105T040000000000Z", "0123456789abcdef0123456789abcdef"⟩
  | (_, .storage _) => some (.ok ())
  | (_, .probe .controlledDirectory) => some (.ok true)
  | (_, .probe _) => some (.ok false)
  | (_, .health) => some (.ok .offline)
  | (_, .archive) => some (.ok (some "0123456789abcdef0123456789abcdef"))
  | (_, .digest) => some (.ok "0")
  | (_, .size) => some (.ok 1)
  | c => (oneKeptDirectory.set (sampleFilename "05") (some .file)).oracle c

/-- The run of the backup at some time. -/
def oneKeptRun (time : ℕ) : Option (List Ev × World × Except Exn Unit × Unit) :=
  Prog.complete (oneKeptOracle time) 200 oneKept (executeLocalBackup false 1 ())

/-- With the clock set back, the backup succeeds and the retention removes it. -/
theorem executeLocalBackup_losesOwn :
    ∃ tr s, Prog.Run (Elsewhere 1) oneKept (executeLocalBackup false 1 ()) tr s (.ret (.ok (), ())) ∧
      oneKeptDirectory.Agrees tr ∧ (s.jobs.get 1).map Job.status = some .succeeded ∧
      ¬KeepsOwn oneKeptDirectory 1 s tr := by
  have heval : (oneKeptRun 3).any (fun r => decide (oneKeptDirectory.Agrees r.1) && r.2.2.1.isOk &&
      decide ((r.2.1.jobs.get 1).map Job.status = some .succeeded) &&
      decide ((r.2.1.jobs.get 1).map (fun job => job.data.value "backup_record_id") = some (.int 2)) &&
      decide (r.2.1.backups.get 2 = none)) = true := by
    decide +kernel
  obtain ⟨⟨tr, s, r, ℓ⟩, hr, hcheck⟩ := exists_some heval
  simp only [Bool.and_eq_true, decide_eq_true_eq] at hcheck
  obtain ⟨⟨⟨⟨hagrees, hok⟩, hstatus⟩, hvalue⟩, hnone⟩ := hcheck
  cases r with
  | error e => cases hok
  | ok u =>
    refine ⟨tr, s, Prog.complete_run _ hr, hagrees, hstatus, ?_⟩
    rintro ⟨job, id, record, hj, hid, hget, -⟩
    rw [hj, Option.map_some, hid, Option.some.injEq, Value.int.injEq] at hvalue
    obtain rfl : id = 2 := by omega
    rw [hnone] at hget
    cases hget

/-- A backup that is kept, as no other record is newer. -/
theorem executeLocalBackup_keepsOwn_iff_later :
    ∃ tr s, Prog.Run (Elsewhere 1) oneKept (executeLocalBackup false 1 ()) tr s (.ret (.ok (), ())) ∧
      KeepsOwn oneKeptDirectory 1 s tr := by
  have heval : (oneKeptRun 5).any (fun r => decide (oneKeptDirectory.Agrees r.1) && r.2.2.1.isOk &&
      decide ((r.2.1.jobs.get 1).map Job.status = some .succeeded) &&
      decide ((backupIdentities r.1).map (fun i => (i.createdAt,
        artifactName (sampleRecord "04" 4).storagePath != backupFilename i 1)) = [(5, true)])) =
          true := by
    decide +kernel
  obtain ⟨⟨tr, s, r, ℓ⟩, hr, hcheck⟩ := exists_some heval
  simp only [Bool.and_eq_true, decide_eq_true_eq] at hcheck
  obtain ⟨⟨⟨hagrees, hok⟩, hstatus⟩, hmade⟩ := hcheck
  obtain ⟨identity, hone, hmade⟩ := List.map_eq_singleton_iff.mp hmade
  obtain ⟨htime, hname⟩ := Prod.mk.inj hmade
  have hrun := Prog.complete_run (Elsewhere 1) hr
  have hunnamed : oneKept.Unnamed (backupFilename identity 1) := by
    intro i r hget _
    obtain ⟨rfl, rfl⟩ : i = 1 ∧ r = sampleRecord "04" 4 := by
      have hmem := Table.mem_rows_iff.mpr hget
      simpa [oneKept, World.withRecords] using hmem
    exact bne_iff_ne.mp hname
  have hretention : configuredLocalRetention oneKept = .ok 1 := rfl
  have hiff := executeLocalBackup_keepsOwn_iff hunnamed hretention rfl hrun hagrees hstatus
    (hone ▸ List.mem_singleton_self identity)
  cases r with
  | error e => cases hok
  | ok u => exact ⟨tr, s, hrun, hiff.mpr (by rw [htime]; decide)⟩

end Sample

end Execution

end PalworldManager
