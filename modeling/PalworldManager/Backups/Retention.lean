/-
# What the retention of local backups removes

`apply_local_retention` keeps the protected records, and then the newest of the
others until there are as many as the retention says.  The two passes of the
source come to a cut of the unprotected records: `keptRecords_eq`.

What `resolve_managed_artifact` and `is_file` answer is what stands in the backup
directory (`BackupDirectory`), as the run has changed it so far.  `Agrees` says
so of a trace, and the rules of the second section carry it along the body, so
that the files that were removed can be told from the records.
-/

import PalworldManager.Executors.Rules

namespace PalworldManager

open Effects

variable {L : Type}

section Selection

/-- The second pass of `apply_local_retention`: what is not kept yet is added, in
its order, until there are `retention` of them. -/
theorem keepNewest_eq (retention : ℕ) {rs : List (ℕ × BackupRecord)} (hrs : rs.Nodup)
    (kept : List (ℕ × BackupRecord)) :
    rs.foldl (fun kept r => if retention ≤ kept.length ∨ r ∈ kept then kept else kept ++ [r]) kept =
      kept ++ (rs.filter fun r => r ∉ kept).take (retention - kept.length) := by
  induction rs generalizing kept with
  | nil => simp
  | cons r rs ih =>
    obtain ⟨hr, hrs⟩ := List.nodup_cons.mp hrs
    rw [List.foldl_cons, ih hrs]
    by_cases hfull : retention ≤ kept.length
    · have hzero : retention - kept.length = 0 := by omega
      simp [hfull, hzero]
    · by_cases hmem : r ∈ kept
      · simp [hmem]
      · have hrest : (rs.filter fun x => x ∉ kept ++ [r]) = rs.filter fun x => x ∉ kept := by
          refine List.filter_congr fun x hx => ?_
          have hne : x ≠ r := fun h => hr (h ▸ hx)
          simp [hne]
        have hsucc : retention - kept.length = (retention - (kept.length + 1)) + 1 := by omega
        rw [if_neg (by simp [hfull, hmem]), hrest, List.filter_cons_of_pos (by simpa using hmem),
          List.length_append, List.length_singleton, hsucc, List.take_succ_cons, List.append_assoc,
          List.singleton_append]

/-- What is kept: the protected records and the newest of the others. -/
theorem keptRecords_eq {managed : List (ℕ × BackupRecord)} (h : managed.Nodup) (retention : ℕ)
    (preserve : List ℕ) :
    keptRecords managed retention preserve =
      (managed.filter fun r => r.1 ∈ preserve) ++
        (managed.filter fun r => r.1 ∉ preserve).take
          (retention - (managed.filter fun r => r.1 ∈ preserve).length) := by
  rw [keptRecords, keepNewest_eq retention h]
  congr 2
  refine List.filter_congr fun r hr => ?_
  simp [List.mem_filter, hr]

/-- The records to remove, of those that are managed. -/
def removedRecords (managed : List (ℕ × BackupRecord)) (retention : ℕ) (preserve : List ℕ) :
    List (ℕ × BackupRecord) :=
  managed.filter fun r => r.1 ∉ (keptRecords managed retention preserve).map Prod.fst

/-- What is removed: the oldest of the records that are not protected. -/
theorem removedRecords_eq {managed : List (ℕ × BackupRecord)} (h : (managed.map Prod.fst).Nodup)
    (retention : ℕ) (preserve : List ℕ) :
    removedRecords managed retention preserve =
      (managed.filter fun r => r.1 ∉ preserve).drop
        (retention - (managed.filter fun r => r.1 ∈ preserve).length) := by
  set n := retention - (managed.filter fun r => r.1 ∈ preserve).length
  set others := managed.filter fun r => r.1 ∉ preserve with hothers
  have hids : (others.map Prod.fst).Nodup := h.sublist (List.filter_sublist.map _)
  have hkept (r) (hr : r ∈ managed) :
      r.1 ∈ (keptRecords managed retention preserve).map Prod.fst ↔
        r.1 ∈ preserve ∨ r.1 ∈ (others.take n).map Prod.fst := by
    rw [keptRecords_eq h.of_map, List.map_append, List.mem_append]
    refine or_congr_left ⟨fun hp => ?_, fun hp => ?_⟩
    · obtain ⟨x, hx, hid⟩ := List.mem_map.mp hp
      exact hid ▸ of_decide_eq_true (List.mem_filter.mp hx).2
    · exact List.mem_map_of_mem (List.mem_filter.mpr ⟨hr, decide_eq_true hp⟩)
  have hsplit : removedRecords managed retention preserve =
      others.filter fun r => r.1 ∉ (others.take n).map Prod.fst := by
    rw [hothers, List.filter_filter, ← hothers, removedRecords]
    refine List.filter_congr fun r hr => ?_
    simp only [hkept r hr, not_or, Bool.decide_and, Bool.and_comm]
  rw [hsplit]
  have hdisjoint : ((others.take n).map Prod.fst).Disjoint ((others.drop n).map Prod.fst) := by
    refine List.disjoint_of_nodup_append ?_
    rwa [← List.map_append, List.take_append_drop]
  conv_lhs => enter [2]; rw [← List.take_append_drop n others]
  rw [List.filter_append, List.filter_eq_nil_iff.mpr, List.filter_eq_self.mpr, List.nil_append]
  · exact fun r hr => decide_eq_true fun hmem => hdisjoint hmem (List.mem_map_of_mem hr)
  · intro r hr
    simpa using List.mem_map_of_mem hr

end Selection

section Directory

/-- What can stand under a name. -/
inductive DirEntry where
  | file | symlink | other
  deriving DecidableEq, Repr

/-- The backup directory: whether `_validate_controlled_directory` accepts it, and
what stands under a name in it. -/
structure BackupDirectory where
  controlled : Bool
  entry : String → Option DirEntry

/-- The name that a managed path has in the backup directory. -/
def artifactName (path : String) : String := (pathParts path).getLast?.getD ""

/-- Put something under a name, or nothing. -/
def BackupDirectory.set (d : BackupDirectory) (name : String) (x : Option DirEntry) :
    BackupDirectory :=
  { d with entry := Function.update d.entry name x }

/-- Whether `resolve_managed_artifact` accepts a path. -/
def BackupDirectory.manages (d : BackupDirectory) (path : String) : Bool :=
  isManagedPath path && d.controlled && d.entry (artifactName path) != some .symlink

/-- Whether a regular file stands under the name of a managed path. -/
def BackupDirectory.isFile (d : BackupDirectory) (path : String) : Bool :=
  d.entry (artifactName path) == some .file

/-- What a step of a job does to the backup directory. -/
def BackupDirectory.step (d : BackupDirectory) : Ev → BackupDirectory
  | .ask (_, .unlink _ path) (.ok _) => d.set (artifactName path) none
  | .tx (.published _ .local path) => d.set (artifactName path) (some .file)
  | _ => d

/-- The backup directory after a trace. -/
def BackupDirectory.after (d : BackupDirectory) (tr : List Ev) : BackupDirectory :=
  tr.foldl BackupDirectory.step d

/-- Whether an answer about a managed path says what the directory holds. -/
def BackupDirectory.answers (d : BackupDirectory) : Ev → Bool
  | .ask (_, .resolve _ path) (.ok b) => b == d.manages path
  | .ask (_, .isFile _ path) (.ok b) => b == d.isFile path
  | _ => true

/-- Every answer of a trace says what the directory holds by then. -/
def BackupDirectory.Agrees (d : BackupDirectory) (tr : List Ev) : Prop :=
  ∀ pre e post, tr = pre ++ e :: post → (d.after pre).answers e = true

/-- The name of the file that a step removes. -/
def removedFile : Ev → Option String
  | .ask (_, .unlink _ path) (.ok _) => some (artifactName path)
  | _ => none

/-- The names of the files that a trace removes. -/
def removedFiles (tr : List Ev) : List String := tr.filterMap removedFile

variable {d : BackupDirectory} {tr : List Ev} {e : Ev}

/-- The directory after two parts of a trace. -/
@[simp]
theorem BackupDirectory.after_append (tr tr' : List Ev) :
    d.after (tr ++ tr') = (d.after tr).after tr' :=
  List.foldl_append

/-- The directory after a first step. -/
@[simp]
theorem BackupDirectory.after_cons : d.after (e :: tr) = (d.step e).after tr := rfl

/-- The directory before any step. -/
@[simp]
theorem BackupDirectory.after_nil : d.after [] = d := rfl

/-- What agrees agreed before its last step. -/
theorem BackupDirectory.Agrees.past (h : d.Agrees (tr ++ [e])) : d.Agrees tr :=
  fun pre x post heq => h pre x (post ++ [e]) (by simp [heq])

/-- The last answer is that of the directory. -/
theorem BackupDirectory.Agrees.last (h : d.Agrees (tr ++ [e])) : (d.after tr).answers e = true :=
  h tr e [] rfl

/-- A trace agrees if its first answer and the rest do. -/
theorem BackupDirectory.agrees_cons :
    d.Agrees (e :: tr) ↔ d.answers e = true ∧ (d.step e).Agrees tr := by
  constructor
  · intro h
    exact ⟨h [] e tr rfl, fun pre x post heq => h (e :: pre) x post (by rw [heq, List.cons_append])⟩
  · rintro ⟨he, htr⟩ pre x post heq
    cases pre with
    | nil =>
      obtain ⟨rfl, rfl⟩ : e = x ∧ tr = post := by simpa using heq
      exact he
    | cons y pre =>
      obtain ⟨rfl, rfl⟩ : e = y ∧ tr = pre ++ x :: post := by simpa using heq
      exact htr pre x post rfl

instance BackupDirectory.decidableAgrees : (d : BackupDirectory) → (tr : List Ev) →
    Decidable (d.Agrees tr)
  | _, [] => .isTrue fun pre _ _ heq => by cases pre <;> cases heq
  | d, e :: tr =>
      let _ := BackupDirectory.decidableAgrees (d.step e) tr
      decidable_of_iff _ BackupDirectory.agrees_cons.symm

/-- The files that two parts of a trace removed. -/
@[simp]
theorem removedFiles_append (tr tr' : List Ev) :
    removedFiles (tr ++ tr') = removedFiles tr ++ removedFiles tr' :=
  List.filterMap_append

/-- The file that the first step removed comes first. -/
@[simp]
theorem removedFiles_cons : removedFiles (e :: tr) = (removedFile e).toList ++ removedFiles tr := by
  cases he : removedFile e <;> simp [removedFiles, he]

/-- No step removed no file. -/
@[simp]
theorem removedFiles_nil : removedFiles [] = [] := rfl

/-- A name stays managed when its file goes. -/
theorem BackupDirectory.manages_set_none {name path : String} (h : d.manages path = true) :
    (d.set name none).manages path = true := by
  simp only [BackupDirectory.manages, BackupDirectory.set, Bool.and_eq_true, bne_iff_ne,
    Function.update_apply] at h ⊢
  refine ⟨h.1, ?_⟩
  split
  · nofun
  · exact h.2

end Directory

section Rules

/-- A step that puts no file into the backup directory, takes none out of it, and names
no new backup. -/
def isQuiet : Ev → Bool
  | .ask (_, .unlink _ _) _ | .ask (_, .identity) _ | .tx (.published _ _ _) => false
  | _ => true

/-- A trace goes on with quiet steps only. -/
def Quietly (tr tr₁ : List Ev) : Prop := ∃ more, tr₁ = tr ++ more ∧ ∀ e ∈ more, isQuiet e = true

/-- The name and the time that a step gives a new backup. -/
def backupIdentity : Ev → Option BackupIdentity
  | .ask (_, .identity) identity => some identity
  | _ => none

/-- The names and times of the new backups of a trace. -/
def backupIdentities (tr : List Ev) : List BackupIdentity := tr.filterMap backupIdentity

variable {α β : Type} {R K : World → World → Prop} {d : BackupDirectory} {j : JobId} {ℓ : L}
  {s : World} {tr tr₁ tr₂ : List Ev} {e : Ev}

/-- The identities that two parts of a trace drew. -/
@[simp]
theorem backupIdentities_append (tr tr' : List Ev) :
    backupIdentities (tr ++ tr') = backupIdentities tr ++ backupIdentities tr' :=
  List.filterMap_append

/-- The identity that the first step drew comes first. -/
@[simp]
theorem backupIdentities_cons :
    backupIdentities (e :: tr) = (backupIdentity e).toList ++ backupIdentities tr := by
  cases he : backupIdentity e <;> simp [backupIdentities, he]

/-- No step drew no identity. -/
@[simp]
theorem backupIdentities_nil : backupIdentities [] = [] := rfl

/-- Nothing happened. -/
theorem Quietly.refl (tr : List Ev) : Quietly tr tr := ⟨[], (List.append_nil tr).symm, by simp⟩

/-- One more quiet step. -/
theorem Quietly.concat (h : Quietly tr tr₁) (he : isQuiet e = true) : Quietly tr (tr₁ ++ [e]) := by
  obtain ⟨more, rfl, hmore⟩ := h
  refine ⟨more ++ [e], by rw [List.append_assoc], fun x hx => ?_⟩
  rcases List.mem_append.mp hx with hx | hx
  · exact hmore x hx
  · rwa [List.mem_singleton.mp hx]

/-- One quiet time after another. -/
theorem Quietly.trans (h : Quietly tr tr₁) (h' : Quietly tr₁ tr₂) : Quietly tr tr₂ := by
  obtain ⟨more, rfl, hmore⟩ := h
  obtain ⟨more', rfl, hmore'⟩ := h'
  refine ⟨more ++ more', by rw [List.append_assoc], fun x hx => ?_⟩
  exact (List.mem_append.mp hx).elim (hmore x) (hmore' x)

/-- A quiet step leaves the directory. -/
theorem BackupDirectory.step_of_isQuiet (he : isQuiet e = true) : d.step e = d := by
  unfold BackupDirectory.step
  split
  · cases he
  · cases he
  · rfl

/-- So does a quiet time. -/
theorem Quietly.after (h : Quietly tr tr₁) : d.after tr₁ = d.after tr := by
  obtain ⟨more, rfl, hmore⟩ := h
  rw [BackupDirectory.after_append]
  generalize d.after tr = d₁
  induction more with
  | nil => rfl
  | cons e more ih =>
    rw [BackupDirectory.after_cons, BackupDirectory.step_of_isQuiet (hmore e List.mem_cons_self)]
    exact ih fun x hx => hmore x (List.mem_cons_of_mem e hx)

/-- It removes nothing. -/
theorem Quietly.removedFiles (h : Quietly tr tr₁) : removedFiles tr₁ = removedFiles tr := by
  obtain ⟨more, rfl, hmore⟩ := h
  have hnone : more.filterMap removedFile = [] := List.filterMap_eq_nil_iff.mpr fun x hx => by
    have hquiet := hmore x hx
    unfold removedFile
    split
    · cases hquiet
    · rfl
  rw [removedFiles_append, PalworldManager.removedFiles, PalworldManager.removedFiles, hnone,
    List.append_nil]

/-- It draws no identity. -/
theorem Quietly.backupIdentities (h : Quietly tr tr₁) :
    backupIdentities tr₁ = backupIdentities tr := by
  obtain ⟨more, rfl, hmore⟩ := h
  have hnone : more.filterMap backupIdentity = [] := List.filterMap_eq_nil_iff.mpr fun x hx => by
    have hquiet := hmore x hx
    unfold backupIdentity
    split
    · cases hquiet
    · rfl
  rw [backupIdentities_append, PalworldManager.backupIdentities, PalworldManager.backupIdentities,
    hnone, List.append_nil]

/-- The records of backups and the settings are as they were. -/
structure SameRows (s s' : World) : Prop where
  backups : s'.backups = s.backups
  settings : s'.settings = s.settings
  timezones : s'.timezones = s.timezones

/-- What others may do within `R`, and what a removal of a file does, is within `K`. -/
structure Framing (R K : World → World → Prop) : Prop where
  refl : ∀ s, K s s
  trans : ∀ s s₁ s₂, K s s₁ → K s₁ s₂ → K s s₂
  rely : ∀ s s₁, R s s₁ → K s s₁
  files : ∀ (s : World) f, K s { s with localFiles := f }

/-- In every run that agrees with the backup directory `d`, a body that returns does
so with `Q`. -/
def BackupDirectory.Ensures (d : BackupDirectory) (R : World → World → Prop) (x : Py L α)
    (Q : α → L → World → List Ev → Prop) (ℓ : L) (s : World) (tr : List Ev) : Prop :=
  Exec.wp R (fun _ _ _ _ => True) x (fun a ℓ s tr => d.Agrees tr → Q a ℓ s tr)
    (fun _ _ _ _ => True) ℓ s tr

/-- A run that has disagreed with the directory is no concern. -/
theorem ensures_of_not_agrees {x : Py L α} {Q : α → L → World → List Ev → Prop}
    (h : ¬d.Agrees tr) : d.Ensures R x Q ℓ s tr :=
  Exec.wp_of_past (fun _ _ hno hyes => hno hyes.past) (fun _ _ _ _ _ => trivial)
    (fun _ _ _ _ hno hyes => absurd hyes hno) (fun _ _ _ _ _ => trivial) h

/-- What is ensured may be said more weakly. -/
theorem ensures_mono {x : Py L α} {Q Q' : α → L → World → List Ev → Prop}
    (h : d.Ensures R x Q ℓ s tr) (hQ : ∀ a ℓ s tr, Q a ℓ s tr → Q' a ℓ s tr) :
    d.Ensures R x Q' ℓ s tr :=
  Exec.wp_mono h (fun a ℓ s tr hq ha => hQ a ℓ s tr (hq ha)) fun _ _ _ _ _ => trivial

/-- What two statements ensure, one after the other. -/
theorem ensures_bind {x : Py L α} {f : α → Py L β} {Q : β → L → World → List Ev → Prop}
    (h : d.Ensures R x (fun a ℓ s tr => d.Ensures R (f a) Q ℓ s tr) ℓ s tr) :
    d.Ensures R (x >>= f) Q ℓ s tr := by
  refine (Exec.wp_bind x f).mpr (Exec.wp_mono h (fun a ℓ s tr hq => ?_) fun _ _ _ _ _ => trivial)
  by_cases ha : d.Agrees tr
  · exact hq ha
  · exact ensures_of_not_agrees ha

/-- A value ensures what holds of it. -/
theorem ensures_pure {a : α} {Q : α → L → World → List Ev → Prop} (h : Q a ℓ s tr) :
    d.Ensures R (pure a : Py L α) Q ℓ s tr :=
  (Exec.wp_pure a).mpr fun _ => h

/-- A call ensures what holds of all answers that agree with the directory. -/
theorem ensures_ask {c : Call} {Q : Reply c → L → World → List Ev → Prop}
    (h : ∀ s₁ r, R s s₁ → (d.after tr).answers (.ask (j, c) r) = true →
      Q r ℓ s₁ (tr ++ [.ask (j, c) r])) :
    d.Ensures R (ask j c : Py L (Reply c)) Q ℓ s tr :=
  (wp_call j c).mpr fun s₁ hs₁ r => ⟨trivial, fun ha => h s₁ r hs₁ ha.last⟩

/-- An answer ensures what holds if it is no fault. -/
theorem ensures_ofReply {r : Except Fault α} {Q : α → L → World → List Ev → Prop}
    (h : ∀ a, r = .ok a → Q a ℓ s tr) : d.Ensures R (ofReply r : Py L α) Q ℓ s tr :=
  (wp_ofReply r).mpr ⟨fun a ha _ => h a ha, fun _ _ => trivial⟩

/-- The answer of `resolve_managed_artifact`; the directory stays as it is. -/
theorem ensures_resolveManagedArtifact (hK : Framing R K) {site : ArtifactSite} {path : String}
    {Q : Bool → L → World → List Ev → Prop}
    (h : ∀ s₁ tr₁, K s s₁ → Quietly tr tr₁ → Q ((d.after tr).manages path) ℓ s₁ tr₁) :
    d.Ensures R (resolveManagedArtifact j site path) Q ℓ s tr := by
  unfold resolveManagedArtifact
  by_cases hpath : isManagedPath path = true
  · rw [if_pos hpath]
    refine ensures_bind (ensures_ask fun s₁ r hs₁ hr => ensures_ofReply fun b hb => ?_)
    subst hb
    obtain rfl : b = (d.after tr).manages path := eq_of_beq hr
    exact h s₁ _ (hK.rely s s₁ hs₁) ((Quietly.refl tr).concat rfl)
  · rw [if_neg hpath]
    have hno : (d.after tr).manages path = false := by
      simp [BackupDirectory.manages, hpath]
    exact ensures_pure (hno ▸ h s tr (hK.refl s) (.refl tr))

/-- `remove_managed_artifact` removes the regular file under a managed path, and
nothing else. -/
theorem ensures_removeManagedArtifact (hK : Framing R K) {site : ArtifactSite} {path : String}
    {Q : Bool → L → World → List Ev → Prop} (hpath : (d.after tr).manages path = true)
    (hfile : (d.after tr).isFile path = true → ∀ s₁ tr₁, K s s₁ →
      d.after tr₁ = (d.after tr).set (artifactName path) none →
      removedFiles tr₁ = removedFiles tr ++ [artifactName path] →
      backupIdentities tr₁ = backupIdentities tr → Q true ℓ s₁ tr₁)
    (hother : (d.after tr).isFile path = false → ∀ s₁ tr₁, K s s₁ → Quietly tr tr₁ →
      Q false ℓ s₁ tr₁) :
    d.Ensures R (removeManagedArtifact j site path) Q ℓ s tr := by
  unfold removeManagedArtifact
  refine ensures_bind (ensures_resolveManagedArtifact hK fun s₁ tr₁ hs₁ htr₁ => ?_)
  rw [if_pos hpath]
  refine ensures_bind (ensures_ask fun s₂ r hs₂ hr => ensures_bind (ensures_ofReply fun b hb => ?_))
  subst hb
  obtain rfl : b = (d.after tr).isFile path := htr₁.after (d := d) ▸ eq_of_beq hr
  have hK₂ : K s s₂ := hK.trans _ _ _ hs₁ (hK.rely _ _ hs₂)
  cases hb : (d.after tr).isFile path with
  | false => exact ensures_pure (hother hb s₂ _ hK₂ (htr₁.concat rfl))
  | true =>
    refine ensures_bind (ensures_ask fun s₃ r hs₃ _ => ensures_bind (ensures_ofReply fun u hu => ?_))
    subst hu
    refine ensures_bind ((Exec.wp_tx _ _).mpr fun s₄ hs₄ => ⟨trivial, fun _ => ?_⟩)
    have hK₄ : K s s₄ :=
      hK.trans _ _ _ hK₂ (hK.trans _ _ _ (hK.rely _ _ hs₃) (hK.rely _ _ hs₄))
    refine ensures_pure (hfile hb _ _ (hK.trans _ _ _ hK₄ (hK.files s₄ _)) ?_ ?_ ?_)
    · simp [BackupDirectory.step, htr₁.after]
    · simp [removedFile, htr₁.removedFiles]
    · simp [backupIdentity, htr₁.backupIdentities]

/-- The records whose path is managed, in their order. -/
theorem ensures_managedRecords (hK : Framing R K) (rs : List (ℕ × BackupRecord))
    {Q : List (ℕ × BackupRecord) → L → World → List Ev → Prop} {s : World} {tr : List Ev}
    (h : ∀ s₁ tr₁, K s s₁ → Quietly tr tr₁ →
      Q (rs.filter fun r => (d.after tr).manages r.2.storagePath) ℓ s₁ tr₁) :
    d.Ensures R (managedRecords j rs) Q ℓ s tr := by
  induction rs generalizing Q s tr with
  | nil => exact ensures_pure (h s tr (hK.refl s) (.refl tr))
  | cons r rs ih =>
    refine ensures_bind (ensures_resolveManagedArtifact hK fun s₁ tr₁ hs₁ htr₁ => ?_)
    refine ensures_bind (ih fun s₂ tr₂ hs₂ htr₂ => ensures_pure ?_)
    have hq := h s₂ tr₂ (hK.trans _ _ _ hs₁ hs₂) (htr₁.trans htr₂)
    rw [List.filter_cons] at hq
    rwa [htr₁.after]

/-- What removing the files of records comes to: those that are regular are gone, and
nothing else is touched. -/
structure Removal (d : BackupDirectory) (rs : List (ℕ × BackupRecord)) (tr tr₁ : List Ev) :
    Prop where
  others : ∀ name, (∀ r ∈ rs, artifactName r.2.storagePath ≠ name) →
    (d.after tr₁).entry name = (d.after tr).entry name
  files : ∀ name, name ∈ removedFiles tr₁ ↔ name ∈ removedFiles tr ∨
    ∃ r ∈ rs, artifactName r.2.storagePath = name ∧ (d.after tr).entry name = some .file
  identities : backupIdentities tr₁ = backupIdentities tr

/-- Quiet steps remove nothing that is to be removed. -/
theorem Quietly.removal_nil (h : Quietly tr tr₁) : Removal d [] tr tr₁ where
  others name _ := by rw [h.after]
  files name := by simp [h.removedFiles]
  identities := h.backupIdentities

/-- Removing the files of managed records removes those that are regular. -/
theorem ensures_removeRecords (hK : Framing R K) (rs : List (ℕ × BackupRecord))
    {Q : Unit → L → World → List Ev → Prop} {s : World} {tr : List Ev}
    (hrs : ∀ r ∈ rs, (d.after tr).manages r.2.storagePath = true)
    (h : ∀ s₁ tr₁, K s s₁ → Removal d rs tr tr₁ → Q () ℓ s₁ tr₁) :
    d.Ensures R (removeRecords j rs) Q ℓ s tr := by
  induction rs generalizing Q s tr with
  | nil => exact ensures_pure (h s tr (hK.refl s) (Quietly.refl tr).removal_nil)
  | cons r rs ih =>
    have hr := hrs r List.mem_cons_self
    have hrest : ∀ x ∈ rs, (d.after tr).manages x.2.storagePath = true := fun x hx =>
      hrs x (List.mem_cons_of_mem _ hx)
    refine ensures_bind (ensures_removeManagedArtifact hK hr ?_ ?_)
    · intro hfile s₁ tr₁ hs₁ hd₁ hf₁ hi₁
      have hentry : (d.after tr).entry (artifactName r.2.storagePath) = some .file := by
        simpa [BackupDirectory.isFile] using hfile
      refine ih (fun x hx => hd₁ ▸ BackupDirectory.manages_set_none (hrest x hx)) ?_
      intro s₂ tr₂ hs₂ htr₂
      refine h s₂ tr₂ (hK.trans _ _ _ hs₁ hs₂) ⟨fun name hname => ?_, fun name => ?_, ?_⟩
      · obtain ⟨hne, hnames⟩ := List.forall_mem_cons.mp hname
        rw [htr₂.others name hnames, hd₁]
        simp [BackupDirectory.set, Ne.symm hne]
      · rw [htr₂.files, hf₁, hd₁]
        by_cases hname : name = artifactName r.2.storagePath
        · subst hname
          simp [hentry]
        · simp [BackupDirectory.set, hname, Ne.symm hname]
      · exact htr₂.identities.trans hi₁
    · intro hfile s₁ tr₁ hs₁ htr₁
      have hentry : (d.after tr).entry (artifactName r.2.storagePath) ≠ some .file := by
        simpa [BackupDirectory.isFile] using hfile
      refine ih (fun x hx => htr₁.after (d := d) ▸ hrest x hx) fun s₂ tr₂ hs₂ htr₂ =>
        h s₂ tr₂ (hK.trans _ _ _ hs₁ hs₂) ⟨fun name hname => ?_, fun name => ?_, ?_⟩
      · rw [htr₂.others name (List.forall_mem_cons.mp hname).2, htr₁.after]
      · rw [htr₂.files, htr₁.removedFiles, htr₁.after]
        by_cases hname : artifactName r.2.storagePath = name
        · subst hname
          simp [hentry]
        · simp [hname]
      · exact htr₂.identities.trans htr₁.backupIdentities

/-- What `apply_local_retention` returns, and the files it removes. -/
theorem ensures_applyLocalRetention (hK : Framing R K) (records : List (ℕ × BackupRecord))
    (retention : ℕ) (preserve : List ℕ) {Q : List ℕ → L → World → List Ev → Prop}
    (h : ∀ removed, removed = removedRecords
        (records.filter fun r => (d.after tr).manages r.2.storagePath) retention preserve →
      ∀ s₁ tr₁, K s s₁ → Removal d removed tr tr₁ → Q (removed.map Prod.fst) ℓ s₁ tr₁) :
    d.Ensures R (applyLocalRetention j records retention preserve) Q ℓ s tr := by
  unfold applyLocalRetention
  refine ensures_bind (ensures_managedRecords hK records fun s₁ tr₁ hs₁ htr₁ => ?_)
  set managed := records.filter fun r => (d.after tr).manages r.2.storagePath with hmanaged
  refine ensures_bind (ensures_removeRecords hK _ ?_ fun s₂ tr₂ hs₂ htr₂ => ensures_pure ?_)
  · intro r hr
    rw [htr₁.after]
    exact (List.mem_filter.mp (List.mem_of_mem_filter hr)).2
  · refine h (removedRecords managed retention preserve) rfl s₂ tr₂ (hK.trans _ _ _ hs₁ hs₂) ?_
    refine ⟨fun name hname => ?_, fun name => ?_, ?_⟩
    · rw [htr₂.others name hname, htr₁.after]
    · rw [htr₂.files, htr₁.removedFiles, htr₁.after]
      rfl
    · exact htr₂.identities.trans htr₁.backupIdentities

end Rules

section Outcome

instance : Std.Total NewerFirst where
  total x y := by
    unfold NewerFirst
    omega

instance : IsTrans (ℕ × BackupRecord) NewerFirst where
  trans x y z hxy hyz := by
    unfold NewerFirst at *
    omega

/-- Two records in both orders are one. -/
theorem NewerFirst.antisymm (x y : ℕ × BackupRecord) (hxy : NewerFirst x y) (hyx : NewerFirst y x) :
    x.1 = y.1 := by
  unfold NewerFirst at *
  omega

/-- The local valid records with a managed path, newest first. -/
def managedLocalRecords (d : BackupDirectory) (s : World) : List (ℕ × BackupRecord) :=
  (s.validRecords .local).filter fun r => d.manages r.2.storagePath

/-- No record is managed twice. -/
theorem nodup_managedLocalRecords (d : BackupDirectory) (s : World) :
    ((managedLocalRecords d s).map Prod.fst).Nodup :=
  (s.backups.nodup_select _ _).sublist (List.filter_sublist.map _)

/-- What is managed: the valid local records of files of backups. -/
theorem mem_managedLocalRecords {d : BackupDirectory} {s : World} {id : ℕ} {r : BackupRecord} :
    (id, r) ∈ managedLocalRecords d s ↔ s.backups.get id = some r ∧ r.location = .local ∧
      r.isValid = true ∧ d.manages r.storagePath = true := by
  rw [managedLocalRecords, List.mem_filter, World.validRecords, Table.mem_select]
  simp only [Bool.and_eq_true, beq_iff_eq, and_assoc]

/-- The managed records without those that were deleted. -/
theorem managedLocalRecords_deleteRecords (d : BackupDirectory) (s : World) (ids : List ℕ) :
    managedLocalRecords d (s.deleteRecords ids) =
      (managedLocalRecords d s).filter fun r => r.1 ∉ ids := by
  simp only [managedLocalRecords, World.validRecords, World.deleteRecords,
    Table.select_keep NewerFirst.antisymm, List.filter_filter, Bool.and_comm]

/-- What a retention of local backups leaves: which records it may delete, how many
are left, that it deletes no newer record than one it could have deleted, and which
files go. -/
structure RetentionOutcome (d : BackupDirectory) (s : World) (retention : ℕ)
    (preserve deleted : List ℕ) (files : List String) : Prop where
  managed : ∀ id ∈ deleted, ∃ r, s.backups.get id = some r ∧ r.location = .local ∧
    r.isValid = true ∧ d.manages r.storagePath = true
  preserved : ∀ id ∈ preserve, (s.deleteRecords deleted).backups.get id = s.backups.get id
  count : (managedLocalRecords d (s.deleteRecords deleted)).length =
    max ((managedLocalRecords d s).filter fun r => r.1 ∈ preserve).length
      (min retention (managedLocalRecords d s).length)
  oldest : ∀ id ∈ deleted, ∀ r, s.backups.get id = some r →
    ∀ x ∈ managedLocalRecords d (s.deleteRecords deleted), x.1 ∉ preserve → NewerFirst x (id, r)
  files : ∀ name, name ∈ files ↔ ∃ id ∈ deleted, ∃ r, s.backups.get id = some r ∧
    artifactName r.storagePath = name ∧ d.entry name = some .file

/-- Cutting the unprotected records of a table after the newest of them. -/
theorem retentionOutcome_removedRecords (d : BackupDirectory) (s : World) (retention : ℕ)
    (preserve : List ℕ) {files : List String}
    (hfiles : ∀ name, name ∈ files ↔
      ∃ r ∈ removedRecords (managedLocalRecords d s) retention preserve,
        artifactName r.2.storagePath = name ∧ d.entry name = some .file) :
    RetentionOutcome d s retention preserve
      ((removedRecords (managedLocalRecords d s) retention preserve).map Prod.fst) files := by
  set managed := managedLocalRecords d s with hmanaged
  have hids : (managed.map Prod.fst).Nodup := nodup_managedLocalRecords d s
  set removed := removedRecords managed retention preserve with hremoved
  set others := managed.filter fun r => r.1 ∉ preserve with hothers
  set kept := managed.filter fun r => r.1 ∈ preserve with hkept
  have hcut : removed = others.drop (retention - kept.length) :=
    removedRecords_eq hids retention preserve
  have hmem : ∀ x ∈ removed, x ∈ managed ∧ x.1 ∉ preserve := fun x hx => by
    have hx' := List.mem_of_mem_drop (hcut ▸ hx)
    simpa [hothers] using hx'
  have hget : ∀ x ∈ managed, s.backups.get x.1 = some x.2 := fun x hx =>
    (mem_managedLocalRecords.mp hx).1
  have hleft : (managed.filter fun r => r.1 ∉ removed.map Prod.fst) =
      managed.filter fun r => r ∉ removed := by
    refine List.filter_congr fun x hx => decide_eq_decide.mpr (not_congr ⟨fun h => ?_, fun h => ?_⟩)
    · obtain ⟨y, hy, hid⟩ := List.mem_map.mp h
      have hyx : y = x := List.inj_on_of_nodup_map hids (hmem y hy).1 hx hid
      exact hyx ▸ hy
    · exact List.mem_map_of_mem h
  have hsplit : others.Pairwise NewerFirst :=
    ((s.backups.pairwise_select _ _).filter _).filter _
  refine ⟨?_, ?_, ?_, ?_, ?_⟩
  · intro id hid
    obtain ⟨x, hx, rfl⟩ := List.mem_map.mp hid
    exact ⟨x.2, mem_managedLocalRecords.mp (hmem x hx).1⟩
  · intro id hid
    have hno : id ∉ removed.map Prod.fst := fun h => by
      obtain ⟨x, hx, rfl⟩ := List.mem_map.mp h
      exact (hmem x hx).2 hid
    rw [World.deleteRecords, Table.get_keep]
    cases s.backups.get id with
    | none => rfl
    | some r => simpa [Option.filter] using hno
  · have hgone : (managed.filter fun r => r ∈ removed).length = removed.length := by
      refine ((List.perm_ext_iff_of_nodup (hids.of_map.filter _) ?_).mpr fun x => ?_).length_eq
      · exact hcut ▸ (hids.of_map.filter _).sublist (List.drop_sublist _ _)
      · rw [List.mem_filter, decide_eq_true_eq]
        exact ⟨And.right, fun hx => ⟨(hmem x hx).1, hx⟩⟩
    have hall := List.length_eq_length_filter_add (l := managed) fun r => decide (r ∈ removed)
    have hboth := List.length_eq_length_filter_add (l := managed) fun r => decide (r.1 ∈ preserve)
    have hlength : removed.length = others.length - (retention - kept.length) := by
      rw [hcut, List.length_drop]
    rw [managedLocalRecords_deleteRecords, ← hmanaged, hleft]
    simp only [decide_not, hkept, hothers] at *
    omega
  · intro id hid r hr x hx hprot
    obtain ⟨y, hy, rfl⟩ := List.mem_map.mp hid
    obtain rfl : y.2 = r := Option.some.inj ((hget y (hmem y hy).1).symm.trans hr)
    rw [managedLocalRecords_deleteRecords, ← hmanaged, hleft, List.mem_filter] at hx
    obtain ⟨hxm, hxr⟩ := hx
    have hxo : x ∈ others := List.mem_filter.mpr ⟨hxm, decide_eq_true hprot⟩
    rw [← List.take_append_drop (retention - kept.length) others] at hsplit hxo
    have hxt : x ∈ others.take (retention - kept.length) :=
      (List.mem_append.mp hxo).resolve_right fun h => of_decide_eq_true hxr (hcut ▸ h)
    exact (List.pairwise_append.mp hsplit).2.2 x hxt y (hcut ▸ hy)
  · intro name
    rw [hfiles]
    constructor
    · rintro ⟨x, hx, hname, hentry⟩
      exact ⟨x.1, List.mem_map_of_mem hx, x.2, hget x (hmem x hx).1, hname, hentry⟩
    · rintro ⟨id, hid, r, hr, hname, hentry⟩
      obtain ⟨x, hx, rfl⟩ := List.mem_map.mp hid
      obtain rfl : x.2 = r := Option.some.inj ((hget x (hmem x hx).1).symm.trans hr)
      exact ⟨x, hx, hname, hentry⟩

/-- **Local retention selects correctly.**  Whatever else changes meanwhile, a call that
returns has removed the oldest unprotected managed records in excess, and of the files
those of these records. -/
theorem applyLocalRetention_selects {j : JobId} {d : BackupDirectory} {s s₁ : World}
    {retention : ℕ} {preserve deleted : List ℕ} {ℓ ℓ' : L} {tr : List Ev}
    (hrun : Prog.Run (fun _ _ => True) s
      (applyLocalRetention j (s.validRecords .local) retention preserve ℓ) tr s₁
      (.ret (.ok deleted, ℓ')))
    (hd : d.Agrees tr) : RetentionOutcome d s retention preserve deleted (removedFiles tr) := by
  have hensures : d.Ensures (fun _ _ => True)
      (applyLocalRetention j (s.validRecords .local) retention preserve)
      (fun deleted _ _ tr => RetentionOutcome d s retention preserve deleted (removedFiles tr))
      ℓ s [] := by
    have hframing : Framing (fun _ _ => True) fun _ _ => True :=
      ⟨fun _ => trivial, fun _ _ _ _ _ => trivial, fun _ _ _ => trivial, fun _ _ => trivial⟩
    refine ensures_applyLocalRetention hframing _ retention preserve fun removed hremoved => ?_
    subst hremoved
    refine fun s₁ tr₁ _ htr₁ => retentionOutcome_removedRecords d s retention preserve fun name => ?_
    simpa [managedLocalRecords] using htr₁.files name
  have hsafe := hrun.safe (fun _ => trivial) (fun _ _ _ _ _ => trivial)
    (fun
      | (.ok _, _), _, _, _, _, h => h
      | (.error _, _), _, _, _, _, h => h)
    (Exec.safe_of_wp hensures)
  exact hsafe hd

section Sample

/-- The name of a backup made on some day. -/
def sampleFilename (day : String) : String :=
  "palworld-manager-backup-202501" ++ day ++ "T040000000000Z-j000001-" ++
    "0123456789abcdef0123456789abcdef.tar.gz"

/-- The record of a local backup made on some day. -/
def sampleRecord (day : String) (createdAt : ℕ) : BackupRecord where
  jobId := some 1
  filename := sampleFilename day
  location := .local
  isValid := true
  sha256 := some "0"
  sizeBytes := some 1
  storagePath := localStoragePath (sampleFilename day)
  createdAt := createdAt

/-- A host with some records of backups, and what else is set. -/
def World.withRecords (records : Table BackupRecord) (settings : Dict) : World where
  jobs := .empty
  lock := none
  heartbeat := none
  backups := records
  settings := settings
  timezones := []
  localFiles := fun _ => none
  remoteFiles := fun _ => none
  now := 0

/-- Three backups of three days; the second is a file, and so is the first. -/
def threeDays : World :=
  World.withRecords
    ⟨[(1, sampleRecord "01" 1), (2, sampleRecord "02" 2), (3, sampleRecord "03" 3)], by decide⟩ []

def threeDaysDirectory : BackupDirectory where
  controlled := true
  entry name := if name = sampleFilename "03" then none else some .file

/-- The answers of a directory that nothing else changes. -/
def BackupDirectory.oracle (d : BackupDirectory) : (c : Asked) → Option (Reply c.2)
  | (_, .resolve _ path) => some (.ok (d.manages path))
  | (_, .isFile _ path) => some (.ok (d.isFile path))
  | (_, .unlink _ _) => some (.ok ())
  | _ => none

/-- Three days: of two records to keep one is preserved, and the oldest goes. -/
theorem applyLocalRetention_selects_threeDays :
    ∃ tr s₁, threeDaysDirectory.Agrees tr ∧
      RetentionOutcome threeDaysDirectory threeDays 2 [1] [2] (removedFiles tr) ∧
      Prog.Run (fun _ _ => True) threeDays
        (applyLocalRetention 1 (threeDays.validRecords .local) 2 [1] ()) tr s₁
        (.ret (.ok [2], ())) := by
  have heval : (Prog.complete threeDaysDirectory.oracle 100 threeDays
      (applyLocalRetention 1 (threeDays.validRecords .local) 2 [1] ())).any
        (fun r => decide (threeDaysDirectory.Agrees r.1) && r.2.2.1.toOption == some [2]) = true := by
    decide +kernel
  obtain ⟨⟨tr, s₁, r, ℓ⟩, hr, hcheck⟩ := exists_some heval
  obtain ⟨hd, hdeleted⟩ := (Bool.and_eq_true _ _).mp hcheck
  have hok : r = .ok [2] := by
    cases r with
    | ok ids => rw [Option.some.inj (eq_of_beq hdeleted)]
    | error e => cases hdeleted
  subst hok
  have hrun := Prog.complete_run (fun _ _ => True) hr
  exact ⟨tr, s₁, of_decide_eq_true hd,
    applyLocalRetention_selects hrun (of_decide_eq_true hd), hrun⟩

end Sample

end Outcome

end PalworldManager
