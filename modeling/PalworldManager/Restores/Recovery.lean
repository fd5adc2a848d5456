/-
# A failed Restore can be recovered from

`apply` copies the prepared world beside the one it replaces, exchanges the two by renames,
writes the settings, and removes the old world last.  Its copy is made path by path
(`wp_copyEntry`): what stands in it agrees with the prepared world (`Agrees`), and every path
that was listed is there in the end, so that it is the prepared world if no path was missing
from the list.  From there each statement of `apply` says where the two worlds are.
-/

import PalworldManager.PalworldSettings.Writers
import PalworldManager.Restores.DiskRules
import PalworldManager.Restores.Target

namespace PalworldManager

open Effects Files Text
open Effects.Exec hiding bind ask

section Copy

variable {source s t : Disk} {target relative : DiskPath} {tr : List DiskEvent}

/-- In a directory, or the directory itself. -/
def Inside (target : DiskPath) (q : DiskPath) (_ : Option (Node ByteArray)) : Prop := target <+: q

/-- A copy that is being made: what stands in it stands in the source. -/
structure Agrees (source : Disk) (target : DiskPath) (s : Disk) : Prop where
  directory : s.node target = some .directory
  node : ∀ q n, s.node (target ++ q) = some n → source.node q = some n

/-- Directories on the way to a path in a directory that exists are in it. -/
theorem Adds.inside {path : DiskPath} (h : Adds (Ways path) s t)
    (htarget : s.node target = some .directory) (hpath : target <+: path) :
    Adds (Inside target) s t := by
  intro q
  refine (h q).imp_right fun ⟨hnone, hq, hdirectory⟩ => ⟨hnone, ?_⟩
  rcases List.prefix_or_prefix_of_prefix hq hpath with hbefore | hwithin
  · obtain ⟨rest, rfl⟩ := hbefore
    cases rest with
    | nil => exact ⟨[], by simp⟩
    | cons k rest =>
      rw [Tree.closed_append (List.cons_ne_nil k rest) (by rw [htarget, Option.isSome_some])]
        at hnone
      cases hnone
  · exact hwithin

/-- A copy goes on agreeing while it makes only what stands in the source. -/
theorem Agrees.add {made : DiskPath → Option (Node ByteArray) → Prop}
    (h : Agrees source target s) (hadds : Adds made s t)
    (hmade : ∀ q n, made (target ++ q) (some n) → source.node q = some n) :
    Agrees source target t where
  directory := hadds.stays h.directory
  node q n hnode := by
    rcases hadds (target ++ q) with hsame | ⟨-, hnew⟩
    · exact h.node q n (hsame ▸ hnode)
    · exact hmade q n (hnode ▸ hnew)

/-- What stands below a target has its parent in the target. -/
theorem prefix_dropLast_append (hrelative : relative ≠ []) :
    target <+: (target ++ relative).dropLast := by
  rw [List.dropLast_append_of_ne_nil hrelative]
  exact List.prefix_append _ _

/-- A directory on the way to a file of the copy is one of the source. -/
theorem Agrees.ways (h : Agrees source target s)
    (hadds : Adds (Ways (target ++ relative).dropLast) s t)
    (hrelative : relative ≠ []) (hsource : (source.node relative).isSome) :
    Agrees source target t := by
  refine h.add hadds ?_
  rintro q n ⟨hq, hn⟩
  obtain rfl := Option.some.inj hn
  rw [List.dropLast_append_of_ne_nil hrelative, List.prefix_append_right_inj] at hq
  obtain ⟨rest, hrest⟩ := hq
  have hlast := List.dropLast_concat_getLast hrelative
  rw [← hrest, List.append_assoc] at hlast
  rw [← hlast] at hsource
  exact Tree.closed_append (by simp) hsource

/-- **One step of the copy**: what stands in the copy stands in the source, and so does the
path that is copied. -/
theorem wp_copyEntry (hroot : source.node [] = some .directory) (h : Agrees source target s) :
    wp Eq (AddsSince (Inside target) s) (copyEntry source target relative)
      (fun _ _ t _ => Adds (Inside target) s t ∧ Agrees source target t ∧
        ∃ n, source.node relative = some n ∧ t.node (target ++ relative) = some n)
      (fun _ _ t _ => Adds (Inside target) s t) () s tr := by
  have hsame : Adds (Inside target) s s := Adds.refl s
  rw [copyEntry, wp_bind]
  refine wp_diskCall (fun _ _ => hsame) (fun tr₁ => ?_) fun _ _ => hsame
  rw [wp_bind, wp_raiseIf]
  refine ⟨fun _ => hsame, fun _ => ?_⟩
  rw [wp_bind]
  refine wp_diskCall (fun _ _ => hsame) (fun tr₂ => ?_) fun _ _ => hsame
  rw [wp_ite]
  refine ⟨fun hdirectory => ?_, fun hdirectory => ?_⟩
  · rw [Node.isDirectory_iff] at hdirectory
    have hmade {t : Disk} (ht : Adds (fun q n => q = target ++ relative ∧ n = some .directory) s t) :
        Adds (Inside target) s t := ht.mono fun q n hq => hq.1 ▸ List.prefix_append target relative
    rw [wp_bind]
    refine wp_mono (wp_guarantee wp_osMkdir fun _ _ _ _ => hmade) (fun _ _ t tr₄ ht => ?_)
      fun _ _ _ _ => hmade
    obtain ⟨hnew, _, heq⟩ := ht
    have hwithin := hmade hnew
    have hagrees : Agrees source target t := by
      refine h.add hnew ?_
      rintro q n ⟨hq, hn⟩
      rw [List.append_cancel_left hq, hdirectory, ← hn]
    have hnode : t.node (target ++ relative) = some .directory := by
      rw [heq, Tree.node_put, if_pos rfl]
    rw [wp_bind]
    refine wp_diskCall (fun _ _ => hwithin) (fun tr₅ => ?_) fun _ _ => hwithin
    exact wp_diskCall (fun _ _ => hwithin) (fun _ => ⟨hwithin, hagrees, _, hdirectory, hnode⟩)
      fun _ _ => hwithin
  · rw [wp_bind]
    refine wp_diskCall (fun _ _ => hsame) (fun tr₃ => ?_) fun _ _ => hsame
    rw [wp_ite]
    refine ⟨fun hfile => ?_, fun _ => (wp_raise _).mpr hsame⟩
    obtain ⟨content, hcontent⟩ := Node.isFile_iff.mp hfile
    have hrelative : relative ≠ [] := by
      rintro rfl
      rw [hroot] at hcontent
      cases hcontent
    rw [hcontent, contentOf, wp_bind]
    have hways : wp Eq (AddsSince (Ways (target ++ relative).dropLast) s)
        (mkdirParents (target ++ relative).dropLast.reverse)
        (fun _ _ t _ => Adds (Ways (target ++ relative).dropLast) s t)
        (fun _ _ t _ => Adds (Ways (target ++ relative).dropLast) s t) () s tr₃ :=
      wp_adds (keeps_mkdirParents _ (by rw [List.reverse_reverse])) (Adds.refl s)
    have hwithin {t : Disk} (ht : Adds (Ways (target ++ relative).dropLast) s t) :
        Adds (Inside target) s t :=
      ht.inside h.directory (prefix_dropLast_append hrelative)
    refine wp_mono (wp_guarantee hways fun _ _ _ _ => hwithin) (fun _ _ s₁ tr₄ h₁ => ?_)
      fun _ _ _ _ => hwithin
    have hagrees : Agrees source target s₁ :=
      h.ways h₁ hrelative (by rw [hcontent, Option.isSome_some])
    -- what the copy of the file adds to `s₁` is within the target too
    have hfile {t : Disk} (ht : Adds (At (target ++ relative)) s₁ t) : Adds (Inside target) s t :=
      (hwithin h₁).trans (ht.mono fun q n hq => hq ▸ List.prefix_append target relative)
    rw [wp_bind]
    refine wp_diskCall (fun _ _ => hwithin h₁) (fun tr₅ => ?_) fun _ _ => hwithin h₁
    rw [wp_bind, wp_ensuring]
    refine wp_mono (wp_guarantee wp_copyInto fun _ _ _ _ => hfile) (fun _ _ t tr₆ ht => ?_)
      fun _ _ t tr₆ ht => ?_
    · have hcopied : Agrees source target t := by
        refine ⟨ht.1.stays hagrees.directory, fun q n hnode => ?_⟩
        rcases ht.1 (target ++ q) with hsame | ⟨-, hq⟩
        · exact hagrees.node q n (hsame ▸ hnode)
        · obtain rfl := List.append_cancel_left hq
          rw [hcontent, ← ht.2, hnode]
      refine wp_diskCall (fun _ _ => hfile ht.1) (fun tr₇ => ?_) fun _ _ => hfile ht.1
      rw [wp_bind]
      refine wp_diskCall (fun _ _ => hfile ht.1) (fun tr₈ => ?_) fun _ _ => hfile ht.1
      exact wp_diskCall (fun _ _ => hfile ht.1)
        (fun _ => ⟨hfile ht.1, hcopied, _, rfl, ht.2⟩) fun _ _ => hfile ht.1
    · exact wp_diskCall (fun _ _ => hfile ht) (fun _ => hfile ht) fun _ _ => hfile ht

/-- **The copy of a list of paths**: each of them is there in the end. -/
theorem wp_copyEntries (hroot : source.node [] = some .directory) (relatives : List DiskPath)
    (h : Agrees source target s) :
    wp Eq (AddsSince (Inside target) s) (copyEntries source target relatives)
      (fun _ _ t _ => Adds (Inside target) s t ∧ Agrees source target t ∧
        ∀ q ∈ relatives, t.node (target ++ q) = source.node q)
      (fun _ _ t _ => Adds (Inside target) s t) () s tr := by
  induction relatives generalizing s tr with
  | nil => exact (wp_pure _).mpr ⟨Adds.refl s, h, nofun⟩
  | cons relative relatives ih =>
    rw [copyEntries, wp_bind]
    refine wp_mono (wp_copyEntry hroot h) (fun _ _ s₁ tr₁ ⟨h₁, hagrees, n, hsource, hnode⟩ => ?_)
      fun _ _ _ _ => id
    refine wp_mono (wp_guarantee (ih hagrees) fun _ _ _ _ => h₁.trans)
      (fun _ _ t _ ⟨ht, hcopied, hall⟩ => ⟨h₁.trans ht, hcopied, ?_⟩) fun _ _ _ _ => h₁.trans
    rintro q (_ | ⟨_, hq⟩)
    · rw [hsource]
      exact ht.stays hnode
    · exact hall q hq

end Copy

/-- An event of a Restore. -/
abbrev RestoreEvent := Event RestoreLabel RestoreCall RestoreCall.Reply

section Rules

variable {s : RestoreArea} {tr : List RestoreEvent} {α : Type}
  {G : RestoreArea → List RestoreEvent → RestoreEvent → RestoreArea → Prop}
  {Q : α → Unit → RestoreArea → List RestoreEvent → Prop}
  {E : RestoreFailure → Unit → RestoreArea → List RestoreEvent → Prop}

/-- A body that changes nothing. -/
def Reads (x : RestoreM α) : Prop := x.Keeps (fun s _ t => t = s) anyLocals

/-- A call changes nothing. -/
theorem reads_restoreCall (op : RestoreOp) : Reads (restoreCall op) := by
  refine keeps_bind (Exec.keeps_ask _ fun _ _ => rfl) fun answer => ?_
  cases answer with
  | none => exact keeps_pure ()
  | some error => exact keeps_raise _

/-- A test changes nothing. -/
theorem reads_restoreTest (test : RestoreTest) : Reads (restoreTest test) := by
  refine keeps_bind (Exec.keeps_ask _ fun _ _ => rfl) fun answer => ?_
  cases answer with
  | ok result => exact keeps_pure result
  | error error => exact keeps_raise _

/-- What reads on the disk reads in the whole area. -/
theorem reads_onDisk {x : DiskM α} (hx : x.Keeps (fun s _ t => t = s) anyLocals) :
    Reads (onDisk x) :=
  Zoom.keeps_exec hx (fun _ _ _ ht => ht ▸ rfl) fun _ _ _ _ => rfl

/-- A call to the file system only reads. -/
theorem reads_diskCall (op : DiskOp) (path : DiskPath) :
    (diskCall op path).Keeps (fun s _ t => t = s) anyLocals := by
  refine keeps_bind (Exec.keeps_ask _ fun _ _ => rfl) fun answer => ?_
  cases answer with
  | none => exact keeps_pure ()
  | some error => exact keeps_raise _

/-- A test of the file system only reads. -/
theorem reads_diskTest (op : DiskOp) (path : DiskPath) (test : Option (Node ByteArray) → Bool) :
    (diskTest op path test).Keeps (fun s _ t => t = s) anyLocals := by
  refine keeps_bind (keeps_tx _ _ fun _ => rfl) fun found =>
    keeps_bind (Exec.keeps_ask _ fun _ _ => rfl) fun answer => ?_
  cases answer with
  | none => exact keeps_pure found
  | some error =>
    cases error with
    | fileNotFound => exact keeps_pure found
    | permission => exact keeps_raise _
    | other => exact keeps_raise _

/-- `_validate_directory` only reads. -/
theorem reads_validateDirectory : Reads validateDirectory := by
  refine keeps_bind (keeps_tryCatch (reads_restoreCall _) fun e => ?_) fun _ => ?_
  · cases e <;> exact keeps_raise _
  · exact keeps_bind (reads_restoreTest _) fun _ => keeps_bind (keeps_raiseIf _ _) fun _ =>
      keeps_bind (reads_onDisk (reads_diskTest _ _ _)) fun _ =>
      keeps_bind (keeps_raiseIf _ _) fun _ => keeps_bind (reads_restoreTest _) fun _ =>
      keeps_bind (keeps_raiseIf _ _) fun _ => keeps_bind (reads_restoreTest _) fun _ =>
      keeps_raiseIf _ _

/-- **What changes nothing is passed over.** -/
theorem wp_reads {x : RestoreM α} (hx : Reads x) (hG : ∀ tr e, G s tr e s)
    (hQ : ∀ a tr, Q a () s tr) (hE : ∀ e tr, E e () s tr) : wp Eq G x Q E () s tr := by
  refine wp_mono (wp_keeps (I := fun t _ => t = s) hx ?_ ?_ rfl) ?_ ?_
  · rintro a b _ rfl hI
    exact hI
  · rintro a tr e b rfl rfl
    exact ⟨rfl, hG tr e⟩
  · rintro a _ t tr ⟨-, rfl⟩
    exact hQ a tr
  · rintro e _ t tr ⟨-, rfl⟩
    exact hE e tr

/-- **A function over the tree** changes the tree alone. -/
theorem wp_onDisk {K : Disk → Prop} {B : List RestoreEvent → Prop} {Q' : α → Disk → Prop}
    {E' : RestoreFailure → Disk → Prop} {x : DiskM α}
    (hB : ∀ tr e, B tr → B (tr ++ [e])) (htr : B tr)
    (hx : wp Eq (fun _ _ _ t => K t) x (fun a _ t _ => Q' a t) (fun e _ t _ => E' e t) () s.disk [])
    (hG : ∀ r tr e t, B tr → K t → G r tr e { s with disk := t })
    (hQ : ∀ a t tr, B tr → Q' a t → Q a () { s with disk := t } tr)
    (hE : ∀ e t tr, B tr → E' e t → E e () { s with disk := t } tr) :
    wp Eq G (onDisk x) Q E () s tr := by
  have hframe : diskZoom.Frame Eq Eq fun a tr => a = { s with disk := a.disk } ∧ B tr := by
    refine ⟨fun a b hab => hab ▸ rfl, fun a b tr hab h => hab ▸ h, fun d a tr l h => ?_,
      fun a tr c r h => ⟨h.1, hB _ _ h.2⟩⟩
    refine ⟨?_, hB _ _ h.2⟩
    rw [h.1]
    rfl
  refine Zoom.wp_exec (G := fun _ t => K t) (F := fun a tr => a = { s with disk := a.disk } ∧ B tr)
    hframe hx ⟨rfl, htr⟩ (fun a tr e b ha hb hK => ?_) (fun a b tr hb h => ?_) fun e b tr hb h => ?_
  · have hb' := hb.1
    rw [hb']
    exact hG a tr e _ ha.2 hK
  · have hb' := hb.1
    rw [hb']
    exact hQ a _ tr hb.2 h
  · have hb' := hb.1
    rw [hb']
    exact hE e _ tr hb.2 h

/-- **A method of the storage** changes the settings file alone. -/
theorem wp_onSettings {Q' : α → SettingsFile → Prop} {E' : SettingsError → SettingsFile → Prop}
    {x : SettingsM α}
    (hx : wp Eq (fun _ _ _ _ => True) x (fun a _ t _ => Q' a t) (fun e _ t _ => E' e t) ()
      s.settings [])
    (hG : ∀ r tr e t, G r tr e { s with settings := t })
    (hQ : ∀ a t tr, Q' a t → Q a () { s with settings := t } tr)
    (hE : ∀ e t tr, E' e t → E (settingsFailure e) () { s with settings := t } tr) :
    wp Eq G (onSettings x) Q E () s tr := by
  have hframe : settingsZoom.Frame Eq Eq fun a _ => a = { s with settings := a.settings } := by
    refine ⟨fun a b hab => hab ▸ rfl, fun a b tr hab h => hab ▸ h, fun d a tr l h => ?_,
      fun a tr c r h => h⟩
    rw [h]
    rfl
  refine Zoom.wp_exec (G := fun _ _ => True) (F := fun a _ => a = { s with settings := a.settings })
    hframe hx rfl (fun a tr e b _ hb _ => ?_) (fun a b tr hb h => ?_) fun e b tr hb h => ?_
  · rw [hb]
    exact hG a tr e _
  · rw [hb]
    exact hQ a _ tr h
  · rw [hb]
    exact hE e _ tr h

end Rules

section Phases

variable {source : Disk} {target : DiskPath} {s : RestoreArea} {tr : List RestoreEvent}
  {G : RestoreArea → List RestoreEvent → RestoreEvent → RestoreArea → Prop}
  {Q : Unit → Unit → RestoreArea → List RestoreEvent → Prop}
  {E : RestoreFailure → Unit → RestoreArea → List RestoreEvent → Prop}

/-- The paths are all that stand in a directory. -/
def Lists (source : Disk) (paths : List DiskPath) : Prop :=
  ∀ q ≠ [], (source.node q).isSome → q ∈ paths

/-- Every listing so far has found all that stands in the prepared world. -/
def Listed (source : Disk) (tr : List RestoreEvent) : Prop :=
  ∀ paths, .ask .rglob paths ∈ tr → Lists source paths

/-- Listings that were complete were complete before. -/
theorem Listed.of_append {tr' : List RestoreEvent} (h : Listed source (tr ++ tr')) :
    Listed source tr := fun paths hmem => h paths (List.mem_append_left _ hmem)

/-- Where everything is listed, the copy is the source. -/
theorem Agrees.below {d : Disk} {paths : List DiskPath} (h : Agrees source target d)
    (hroot : source.node [] = some .directory) (hlists : Lists source paths)
    (hall : ∀ q ∈ sortedPaths paths, d.node (target ++ q) = source.node q) :
    d.below target = source.node := by
  funext q
  rw [Tree.below]
  by_cases hq : q = []
  · rw [hq, List.append_nil, h.directory, hroot]
  · cases hsource : source.node q with
    | some n =>
      have hmem : q ∈ paths := hlists q hq (by rw [hsource, Option.isSome_some])
      rw [hall q (List.mem_mergeSort.mpr hmem), hsource]
    | none =>
      cases hnode : d.node (target ++ q) with
      | none => rfl
      | some n =>
        rw [h.node q n hnode] at hsource
        cases hsource

/-- **The copy of the prepared world**, whole if everything was listed. -/
theorem wp_copyWorldTree (hroot : source.node [] = some .directory)
    (hG : ∀ r tr e t, Adds (Inside target) s.disk t → G r tr e { s with disk := t })
    (hQ : ∀ t tr, Adds (Inside target) s.disk t →
      (Listed source tr → t.below target = source.node) → Q () () { s with disk := t } tr)
    (hE : ∀ e t tr, Adds (Inside target) s.disk t → E e () { s with disk := t } tr) :
    wp Eq G (copyWorldTree source target) Q E () s tr := by
  have hmade {t : Disk} (ht : Adds (fun q n => q = target ∧ n = some .directory) s.disk t) :
      Adds (Inside target) s.disk t := ht.mono fun q n hq => hq.1 ▸ List.prefix_rfl
  rw [copyWorldTree, wp_bind]
  refine wp_onDisk (B := fun _ => True) (fun _ _ => id) trivial wp_osMkdir
    (fun r tr e t _ ht => hG r tr e t (hmade ht)) (fun _ d₁ tr₁ _ h₁ => ?_)
    fun e t tr _ ht => hE e t tr (hmade ht)
  obtain ⟨hnew, hfree, heq⟩ := h₁
  have hadds := hmade hnew
  have hagrees : Agrees source target d₁ := by
    refine ⟨by rw [heq, Tree.node_put, if_pos rfl], fun q n hnode => ?_⟩
    by_cases hq : q = []
    · rw [hq, List.append_nil, heq, Tree.node_put, if_pos rfl] at hnode
      rw [hq, hroot, hnode]
    · have hne : target ++ q ≠ target := fun h => hq (List.append_right_eq_self.mp h)
      rw [heq, Tree.node_put, if_neg hne,
        Tree.node_append_eq_none (fun h => by rw [hfree.1] at h; cases h) hq] at hnode
      cases hnode
  rw [wp_bind]
  refine wp_reads (reads_onDisk (reads_diskCall _ _)) (fun tr e => hG _ tr e d₁ hadds)
    (fun _ tr₂ => ?_) fun e tr => hE e d₁ tr hadds
  rw [wp_bind, restoreAsk, wp_ask]
  rintro _ rfl paths
  refine ⟨hG _ _ _ d₁ hadds, ?_⟩
  refine wp_onDisk (B := fun tr => .ask .rglob paths ∈ tr)
    (fun _ _ => List.mem_append_left _) (List.mem_append_right _ (List.mem_singleton_self _))
    (wp_copyEntries hroot (sortedPaths paths) hagrees)
    (fun r tr e t _ ht => hG r tr e t (hadds.trans ht)) (fun _ t tr hmem ht => ?_)
    fun e t tr _ ht => hE e t tr (hadds.trans ht)
  obtain ⟨ht, hcopied, hall⟩ := ht
  exact hQ t tr (hadds.trans ht) fun hlisted => hcopied.below hroot (hlisted paths hmem) hall

/-- **The related settings**: whatever happens, nothing else changes. -/
theorem wp_replaceRelatedSettings {content : Str}
    (hG : ∀ r tr e t, t.disk = s.disk → t.settings = s.settings → G r tr e t)
    (hQ : ∀ t tr, t.disk = s.disk → t.settings = s.settings →
      t.gameUserSettings.isSome ∧ t.gameUserSettings = encodeUtf8 content → Q () () t tr)
    (hE : ∀ e t tr, E e () t tr) :
    wp Eq G (replaceRelatedSettings content) Q E () s tr := by
  have hsame (tr : List RestoreEvent) (e : RestoreEvent) : G s tr e s := hG s tr e s rfl rfl
  -- what `finally` does once the body has raised
  have htemporary : Reads removeRelatedTemporary :=
    keeps_bind (reads_restoreTest _) fun _ =>
      keeps_ite (fun _ => reads_restoreCall _) fun _ => keeps_pure _
  have hend (e : RestoreFailure) (tr : List RestoreEvent) :
      wp Eq G removeRelatedTemporary (fun _ => E e) E () s tr :=
    wp_reads htemporary hsame (fun _ _ => hE _ _ _) fun _ _ => hE _ _ _
  rw [replaceRelatedSettings, wp_bind]
  refine wp_reads (reads_restoreCall _) hsame (fun _ tr₁ => ?_) fun _ _ => hE _ _ _
  rw [wp_bind, wp_tx]
  rintro _ rfl
  refine ⟨hsame _ _, ?_⟩
  rw [wp_bind, wp_raiseIf]
  refine ⟨fun _ => hE _ _ _, fun _ => ?_⟩
  rw [wp_bind]
  refine wp_reads (reads_restoreTest _) hsame (fun _ tr₂ => ?_) fun _ _ => hE _ _ _
  rw [wp_bind]
  refine wp_reads (reads_restoreTest _) hsame (fun _ tr₃ => ?_) fun _ _ => hE _ _ _
  rw [wp_bind, wp_raiseIf]
  refine ⟨fun _ => hE _ _ _, fun _ => ?_⟩
  rw [wp_bind]
  refine wp_reads (reads_restoreCall _) hsame (fun _ tr₄ => ?_) fun _ _ => hE _ _ _
  rw [wp_ensuring, wp_bind]
  refine wp_reads (reads_restoreCall _) hsame (fun _ tr₅ => ?_) hend
  rw [wp_bind]
  refine wp_reads (reads_restoreCall _) hsame (fun _ tr₆ => ?_) hend
  rw [wp_bind, wp_ensuring, writeRelated, wp_bind, encodeRelated]
  cases hbytes : encodeUtf8 content with
  | none =>
    refine (wp_raise _).mpr ?_
    exact wp_reads (reads_restoreCall _) hsame (fun _ => hend _) hend
  | some bytes =>
    rw [wp_pure]
    -- what the `with` statement does once its body has ended
    have hclose (e : RestoreFailure) (tr : List RestoreEvent) :
        wp Eq G (restoreCall .close)
          (fun _ _ t tr => wp Eq G removeRelatedTemporary (fun _ => E e) E () t tr)
          (fun e _ t tr => wp Eq G removeRelatedTemporary (fun _ => E e) E () t tr) () s tr :=
      wp_reads (reads_restoreCall _) hsame (fun _ => hend e) hend
    rw [wp_bind]
    refine wp_reads (reads_restoreCall _) hsame (fun _ tr₇ => ?_) hclose
    rw [wp_bind]
    refine wp_reads (reads_restoreCall _) hsame (fun _ tr₈ => ?_) hclose
    rw [wp_bind]
    refine wp_reads (reads_restoreCall _) hsame (fun _ tr₉ => (wp_pure _).mpr ?_) hclose
    refine wp_reads (reads_restoreCall _) hsame (fun _ tr₁₀ => ?_) hend
    rw [replaceRelated, wp_bind]
    refine wp_reads (reads_restoreCall _) hsame (fun _ tr₁₁ => ?_) hend
    rw [wp_tx]
    rintro _ rfl
    refine ⟨hG _ _ _ _ rfl rfl, ?_⟩
    exact wp_reads htemporary (fun tr e => hG _ tr e _ rfl rfl)
      (fun _ tr => hQ _ _ rfl rfl ⟨rfl, hbytes.symm⟩) fun _ _ => hE _ _ _

/-- The removal of the previous world has begun. -/
def RemovalBegun (tr : List RestoreEvent) : Prop := ∃ answer, .ask .rmtree answer ∈ tr

/-- A removal that has begun stays so. -/
theorem RemovalBegun.append (h : RemovalBegun tr) (e : RestoreEvent) : RemovalBegun (tr ++ [e]) :=
  h.imp fun _ => List.mem_append_left _

/-- **The removal of a tree**: nothing else changes, and its beginning is in the trace. -/
theorem wp_rmtree {path : DiskPath}
    (hG : ∀ r tr e t, RemovalBegun (tr ++ [e]) →
      (∀ q, ¬ path <+: q → t.node q = s.disk.node q) → G r tr e { s with disk := t })
    (hQ : ∀ t tr, Q () () t tr) (hE : ∀ e t tr, E e () t tr) :
    wp Eq G (rmtree path) Q E () s tr := by
  have heach (d : Disk) (qs : List DiskPath) (tr' : List DiskEvent)
      (hd : ∀ q, ¬ path <+: q → d.node q = s.disk.node q) :
      wp Eq (fun _ _ _ t => ∀ q, ¬ path <+: q → t.node q = s.disk.node q) (removeEach path qs)
        (fun _ _ t _ => ∀ q, ¬ path <+: q → t.node q = s.disk.node q) (fun _ _ _ _ => True)
        () d tr' := by
    induction qs generalizing d tr' with
    | nil => exact (wp_pure _).mpr hd
    | cons q qs ih =>
      rw [removeEach, wp_bind, wp_tx]
      rintro _ rfl
      have hremove (r : DiskPath) (hr : ¬ path <+: r) :
          (d.remove (path ++ q)).node r = s.disk.node r := by
        rw [Tree.node_remove, if_neg fun h => hr ((List.prefix_append path q).trans h), hd r hr]
      exact ⟨hremove, ih _ _ hremove⟩
  rw [rmtree, wp_bind, restoreAsk, wp_ask]
  rintro _ rfl answer
  have hbegun : RemovalBegun (tr ++ [.ask .rmtree answer]) :=
    ⟨answer, List.mem_append_right _ (List.mem_singleton_self _)⟩
  have hlater (tr : List RestoreEvent) (e : RestoreEvent) (h : RemovalBegun tr) :
      RemovalBegun (tr ++ [e]) := h.append e
  refine ⟨hG _ _ _ s.disk hbegun fun _ _ => rfl, ?_⟩
  obtain ⟨removed, failure⟩ := answer
  rw [wp_bind]
  refine wp_onDisk hlater hbegun (heach s.disk removed [] fun _ _ => rfl)
    (fun r tr e t hbefore ht => hG r tr e t (hlater tr e hbefore) ht) (fun _ d tr₁ hbegun₁ hd => ?_)
    fun _ _ _ _ _ => hE _ _ _
  cases failure with
  | some error => exact (wp_raise _).mpr (hE _ _ _)
  | none =>
    exact wp_onDisk hlater hbegun₁ (heach d [[]] [] hd)
      (fun r tr e t hbefore ht => hG r tr e t (hlater tr e hbefore) ht) (fun _ _ _ _ _ => hQ _ _)
      fun _ _ _ _ _ => hE _ _ _

end Phases

section Apply

variable {sha256 : ByteArray → String} {path : SettingsPath} {prepared : PreparedRestore}
  {jobId : JobId} {s₀ s : RestoreArea} {tr : List RestoreEvent}

/-- The restored world and both settings files are in place. -/
structure RestoreApplied (prepared : PreparedRestore) (s : RestoreArea) : Prop where
  world : s.disk.below worldRoot = prepared.worldDirectory.node
  settings : s.settings.isSome ∧ s.settings = encodeUtf8 prepared.palworldSettings
  gameUserSettings : ∀ content, prepared.gameUserSettings = some content →
    s.gameUserSettings.isSome ∧ s.gameUserSettings = encodeUtf8 content

/-- **What is left to recover from**: the old world where it was or where it was put aside, or
the new one in its place with its settings, and this only once the removal has begun. -/
inductive Recoverable (s₀ : RestoreArea) (prepared : PreparedRestore) (jobId : JobId)
    (tr : List RestoreEvent) (s : RestoreArea) : Prop
  | world (h : s.disk.below worldRoot = s₀.disk.below worldRoot)
  | previous (h : s.disk.below (previousRoot jobId) = s₀.disk.below worldRoot)
  | applied (removal : RemovalBegun tr) (h : RestoreApplied prepared s)

/-- The new world is prepared beside the world. -/
theorem apart_newRoot (jobId : JobId) : Tree.Apart (newRoot jobId) worldRoot := by
  refine Tree.apart_singleton fun h => ?_
  have hhead := congrArg List.head? h
  simp [str, String.toList_append, Point.ofChar] at hhead

/-- The old world is put aside beside the world. -/
theorem apart_previousRoot (jobId : JobId) : Tree.Apart (previousRoot jobId) worldRoot := by
  refine Tree.apart_singleton fun h => ?_
  have hhead := congrArg List.head? h
  simp [str, String.toList_append, Point.ofChar] at hhead

/-- Neither of the two is in the other. -/
theorem apart_newRoot_previousRoot (jobId : JobId) :
    Tree.Apart (newRoot jobId) (previousRoot jobId) := by
  refine Tree.apart_singleton fun h => ?_
  simp [str, String.toList_append, Point.ofChar] at h

/-- What is made inside one path changes nothing below another that is apart. -/
theorem Adds.below {p q : DiskPath} {d d' : Disk} (h : Adds (Inside p) d d')
    (hpq : Tree.Apart p q) : d'.below q = d.below q := by
  funext r
  exact (h (q ++ r)).resolve_right fun hnew => hpq.append r hnew.2

/-- What each step of `apply` has to leave. -/
abbrev Recovers (s₀ : RestoreArea) (prepared : PreparedRestore) (jobId : JobId) :
    RestoreArea → List RestoreEvent → RestoreEvent → RestoreArea → Prop :=
  fun _ tr e t => Listed prepared.worldDirectory (tr ++ [e]) →
    Recoverable s₀ prepared jobId (tr ++ [e]) t

/-- The guarded statements of `apply`, once the world is copied. -/
theorem wp_exchange (hold : s.disk.below worldRoot = s₀.disk.below worldRoot)
    (hnew : s.disk.below (newRoot jobId) = prepared.worldDirectory.node) :
    wp Eq (Recovers s₀ prepared jobId)
      (do
        onDisk (replaceDirectory worldRoot (previousRoot jobId))
        onDisk (replaceDirectory (newRoot jobId) worldRoot)
        let _ ← onSettings
          (write sha256 path prepared.palworldSettingsVersion prepared.palworldSettings)
        replaceIfPresent prepared.gameUserSettings
        rmtree (previousRoot jobId))
      (fun _ _ _ _ => True) (fun _ _ _ _ => True) () s tr := by
  have hpast : ∀ (tr : List RestoreEvent) (e : RestoreEvent), True → True := fun _ _ => id
  have hnew_world := apart_newRoot jobId
  have hprevious_world := apart_previousRoot jobId
  have hnew_previous := apart_newRoot_previousRoot jobId
  rw [wp_bind]
  refine wp_onDisk (B := fun _ => True) hpast trivial wp_replaceDirectory
    (fun _ tr e t _ ht _ => ?_) (fun _ d₁ tr₁ _ h₁ => ?_) fun _ _ _ _ _ => trivial
  · rcases ht with rfl | ⟨hmove, rfl⟩
    · exact .world hold
    · exact .previous ((Tree.below_move_target (h := hmove)).trans hold)
  obtain ⟨hmove, rfl⟩ := h₁
  have hprevious₁ := (Tree.below_move_target (h := hmove)).trans hold
  have hnew₁ := (Tree.below_move_other (h := hmove) hnew_world.symm hnew_previous.symm).trans hnew
  rw [wp_bind]
  refine wp_onDisk (B := fun _ => True) hpast trivial wp_replaceDirectory
    (fun _ tr e t _ ht _ => ?_) (fun _ d₂ tr₂ _ h₂ => ?_) fun _ _ _ _ _ => trivial
  · rcases ht with rfl | ⟨hmove', rfl⟩
    · exact .previous hprevious₁
    · exact .previous ((Tree.below_move_other (h := hmove') hnew_previous hprevious_world.symm).trans
        hprevious₁)
  obtain ⟨hmove', rfl⟩ := h₂
  have hprevious₂ :=
    (Tree.below_move_other (h := hmove') hnew_previous hprevious_world.symm).trans hprevious₁
  have hworld₂ := (Tree.below_move_target (h := hmove')).trans hnew₁
  rw [wp_bind]
  refine wp_onSettings (wp_guarantee (wp_write s.settings) fun _ _ _ _ _ => trivial)
    (fun _ _ _ _ _ => .previous hprevious₂) (fun _ settings tr₃ hsettings => ?_)
    fun _ _ _ _ => trivial
  -- the old world is put aside until its removal begins
  have hremoval (t : RestoreArea) (tr : List RestoreEvent)
      (hdisk : t.disk.below (previousRoot jobId) = s₀.disk.below worldRoot)
      (happlied : RestoreApplied prepared t) :
      wp Eq (Recovers s₀ prepared jobId) (rmtree (previousRoot jobId)) (fun _ _ _ _ => True)
        (fun _ _ _ _ => True) () t tr := by
    refine wp_rmtree (fun _ tr e d hbegun hd _ => .applied hbegun ⟨?_, happlied.settings,
      happlied.gameUserSettings⟩) (fun _ _ => trivial) fun _ _ _ => trivial
    rw [← happlied.world]
    funext q
    exact hd _ (hprevious_world.append q)
  rw [wp_bind]
  cases hrelated : prepared.gameUserSettings with
  | none =>
    rw [replaceIfPresent, wp_pure]
    exact hremoval _ tr₃ hprevious₂ ⟨hworld₂, hsettings, fun _ h => by rw [hrelated] at h; cases h⟩
  | some content =>
    refine wp_replaceRelatedSettings (fun _ _ _ t hdisk _ _ => .previous (hdisk ▸ hprevious₂))
      (fun t tr hdisk hsame hgame => ?_) fun _ _ _ => trivial
    refine hremoval t tr (hdisk ▸ hprevious₂) ⟨hdisk ▸ hworld₂, hsame ▸ hsettings, fun _ h => ?_⟩
    obtain rfl := Option.some.inj (hrelated.symm.trans h)
    exact hgame

/-- **Each step of `apply` leaves something to recover from**, if all was listed. -/
theorem wp_applyRestoreTarget :
    wp Eq (Recovers s₀ prepared jobId) (applyRestoreTarget sha256 path prepared jobId)
      (fun _ _ _ _ => True) (fun _ _ _ _ => True) () s₀ tr := by
  have hsame (tr : List RestoreEvent) (e : RestoreEvent) :
      Recovers s₀ prepared jobId s₀ tr e s₀ := fun _ => .world rfl
  have hexists (p : DiskPath) : (existsOrLink p).Keeps (fun s _ t => t = s) anyLocals :=
    keeps_bind (reads_diskTest _ _ _) fun _ =>
      keeps_ite (fun _ => keeps_pure _) fun _ => reads_diskTest _ _ _
  have hleftover : Reads (leftover jobId) :=
    keeps_bind (reads_onDisk (hexists _)) fun _ =>
      keeps_ite (fun _ => keeps_pure _) fun _ => reads_onDisk (hexists _)
  rw [applyRestoreTarget, wp_bind]
  refine wp_reads reads_validateDirectory hsame (fun _ tr₁ => ?_) fun _ _ => trivial
  rw [wp_bind]
  refine wp_reads hleftover hsame (fun found tr₂ => ?_) fun _ _ => trivial
  rw [wp_bind, wp_raiseIf]
  refine ⟨fun _ => trivial, fun _ => ?_⟩
  rw [wp_bind]
  refine wp_reads (reads_onDisk (reads_diskCall _ _)) hsame (fun _ tr₃ => ?_) fun _ _ => trivial
  rw [wp_tryCatch]
  refine wp_mono (Q := fun _ _ _ _ => True) (E := fun _ _ _ _ => True) ?_ (fun _ _ _ _ => id)
    fun _ _ _ _ _ => (wp_raise _).mpr trivial
  rw [applyPrepared, wp_bind]
  refine wp_copyWorldTree prepared.isDirectory
    (fun _ tr e t ht _ => .world (ht.below (apart_newRoot jobId))) (fun t tr₄ ht hcopied => ?_)
    fun _ _ _ _ => trivial
  by_cases hlisted : Listed prepared.worldDirectory tr₄
  · exact wp_exchange (ht.below (apart_newRoot jobId)) (hcopied hlisted)
  · exact wp_of_past (B := fun tr => ¬ Listed prepared.worldDirectory tr)
      (fun _ _ h hall => h hall.of_append) (fun _ _ _ _ h hall => absurd hall.of_append h)
      (fun _ _ _ _ _ => trivial) (fun _ _ _ _ _ => trivial) hlisted

/-- What stands at a path, a link or not, is seen there. -/
theorem wp_existsOrLink {p : DiskPath}
    {G : RestoreArea → List RestoreEvent → RestoreEvent → RestoreArea → Prop}
    {Q : Bool → Unit → RestoreArea → List RestoreEvent → Prop}
    {E : RestoreFailure → Unit → RestoreArea → List RestoreEvent → Prop}
    (hG : ∀ r tr e, G r tr e s) (hQ : ∀ tr, Q (s.disk.node p).isSome () s tr)
    (hE : ∀ e tr, E e () s tr) : wp Eq G (onDisk (existsOrLink p)) Q E () s tr := by
  have hexists (tr' : List DiskEvent) : wp Eq (fun _ _ _ t => t = s.disk) (existsOrLink p)
      (fun found _ t _ => found = (s.disk.node p).isSome ∧ t = s.disk) (fun _ _ t _ => t = s.disk)
      () s.disk tr' := by
    rw [existsOrLink, wp_bind]
    refine wp_diskTest (fun _ _ => rfl) (fun _ => ?_) fun _ _ => rfl
    rw [wp_ite]
    refine ⟨fun hfound => (wp_pure _).mpr ⟨?_, rfl⟩, fun hfound => ?_⟩
    · rw [Bool.and_eq_true] at hfound
      exact hfound.1.symm
    · refine wp_diskTest (fun _ _ => rfl) (fun _ => ⟨?_, rfl⟩) fun _ _ => rfl
      rcases hnode : s.disk.node p with _ | (_ | c | _ | _) <;>
        simp [hnode, Node.isLink] at hfound ⊢
  refine wp_onDisk (B := fun _ => True) (fun _ _ => id) trivial (hexists [])
    (fun r tr e t _ ht => ht ▸ hG r tr e) (fun found t tr _ h => ?_) fun e t tr _ ht => ht ▸ hE e tr
  obtain ⟨rfl, rfl⟩ := h
  exact hQ tr

/-- `apply` is refused, and changes nothing, where an earlier call left a tree. -/
theorem wp_refused (h : (s.disk.node (newRoot jobId)).isSome ∨
    (s.disk.node (previousRoot jobId)).isSome) :
    wp Eq (fun _ _ _ t => t = s) (applyRestoreTarget sha256 path prepared jobId)
      (fun _ _ _ _ => False) (fun _ _ t _ => t = s) () s tr := by
  rw [applyRestoreTarget, wp_bind]
  refine wp_reads reads_validateDirectory (fun _ _ => rfl) (fun _ tr₁ => ?_) fun _ _ => rfl
  rw [wp_bind, leftover, wp_bind]
  refine wp_existsOrLink (fun _ _ _ => rfl) (fun tr₂ => ?_) fun _ _ => rfl
  rw [wp_ite, wp_pure, wp_bind, wp_raiseIf]
  refine ⟨fun hnew => ⟨fun _ => rfl, fun hfound => absurd rfl hfound⟩, fun hnew => ?_⟩
  refine wp_existsOrLink (fun _ _ _ => rfl) (fun tr₃ => ?_) fun _ _ => rfl
  rw [wp_bind, wp_raiseIf]
  exact ⟨fun _ => rfl, fun hfound => absurd (h.resolve_left hnew) hfound⟩

/-- **A failed Restore can be recovered from**, in every run where each listing of the prepared
world found all that stands in it; and while a tree that it left is there, a later call for the
same job raises and changes nothing. -/
theorem applyRestoreTarget_recoverable {p : Prog RestoreArea RestoreLabel RestoreCall
      RestoreCall.Reply (Except RestoreFailure Unit × Unit)}
    (hrun : Prog.Run Eq s₀ (applyRestoreTarget sha256 path prepared jobId ()) tr s p)
    (hlisted : Listed prepared.worldDirectory tr) :
    Recoverable s₀ prepared jobId tr s ∧
      ((s.disk.node (newRoot jobId)).isSome ∨ (s.disk.node (previousRoot jobId)).isSome →
        ∀ prepared' tr' s' p',
          Prog.Run Eq s (applyRestoreTarget sha256 path prepared' jobId ()) tr' s' p' →
            s' = s ∧ ∀ r, p' = .ret r → ∃ failure, r.1 = .error failure) := by
  have hrefl (a : RestoreArea) : a = a := rfl
  have htrans (a b c : RestoreArea) : a = b → b = c → a = c := Eq.trans
  constructor
  · have hwp : wp Eq (Recovers s₀ prepared jobId) (applyRestoreTarget sha256 path prepared jobId)
        (fun _ _ _ _ => True) (fun _ _ _ _ => True) () s₀ [] := wp_applyRestoreTarget
    have hI := Prog.Run.invariant (I := fun s tr => Listed prepared.worldDirectory tr →
        Recoverable s₀ prepared jobId tr s) hrefl htrans
      (fun _ _ _ _ hab h => hab ▸ h) (fun _ _ _ hab h => hab ▸ h) (fun _ _ _ _ h => h)
      (fun _ => .world rfl) (safe_of_wp hwp) hrun
    exact hI hlisted
  · intro hleft prepared' tr' s' p' hrun'
    have hwp : wp Eq (fun _ _ _ t => t = s) (applyRestoreTarget sha256 path prepared' jobId)
        (fun _ _ _ _ => False) (fun _ _ t _ => t = s) () s [] := wp_refused hleft
    have hI := Prog.Run.invariant (I := fun t _ => t = s) hrefl htrans
      (fun _ _ _ _ hab h => hab ▸ h) (fun _ _ _ hab h => hab ▸ h) (fun _ _ _ _ h => h) rfl
      (safe_of_wp hwp) hrun'
    refine ⟨hI, fun r hr => ?_⟩
    have hend := Prog.Run.safe hrefl htrans (fun _ _ _ _ hab h => hab ▸ h) (safe_of_wp hwp) hrun'
    rw [hr] at hend
    obtain ⟨r, ℓ⟩ := r
    cases r with
    | ok _ => exact hend.elim
    | error failure => exact ⟨failure, rfl⟩

end Apply

section Samples

/-- The answers of a system where nothing fails, and a listing finds some paths. -/
def restoreAnswer (paths : List DiskPath) : (call : RestoreCall) → Option call.Reply
  | .disk _ => some (none : Option OsError)
  | .settings call => sampleAnswer none call
  | .operation _ => some (none : Option OsError)
  | .test _ => some (.ok false : Except OsError Bool)
  | .rglob => some paths
  | .rmtree => some (([], none) : List DiskPath × Option OsError)

/-- On an empty disk a file can be made. -/
theorem free_empty (file : Str) : (Tree.empty : Disk).Free [file] :=
  ⟨List.cons_ne_nil _ _, rfl, fun h => nomatch h⟩

/-- A directory with a file in it. -/
def sampleWorld (file : Str) (content : ByteArray) : Disk :=
  Tree.empty.put [file] (.file content) (free_empty file)

/-- The file of a world. -/
def levelFile : Str := str "Level.sav"

/-- A prepared world of one file. -/
def samplePrepared : PreparedRestore where
  worldDirectory := sampleWorld levelFile "new".toUTF8
  isDirectory := rfl
  palworldSettings := str "[/Script/Pal.PalGameWorldSettings]\nOptionSettings=(ServerName=\"hello\")\n"
  palworldSettingsVersion := blankVersion
  gameUserSettings := none

/-- The world before. -/
def sampleArea : RestoreArea where
  disk :=
    let parent := (putNew .empty worldRoot .directory).2
    (putNew parent (worldRoot ++ [levelFile]) (.file "old".toUTF8)).2
  settings := blankFile
  gameUserSettings := none

/-- The run of `apply` where a listing finds some paths. -/
def evaluateTarget (paths : List DiskPath) :
    Option (List RestoreEvent × RestoreArea × Except RestoreFailure Unit) :=
  match Prog.advance (restoreAnswer paths) 100 sampleArea
      (applyRestoreTarget sampleVersions samplePath samplePrepared 1 ()) with
  | (tr, s, .ret (r, _)) => some (tr, s, r)
  | _ => none

/-- What `evaluateTarget` returns is a run of `apply`. -/
theorem evaluateTarget_run {paths : List DiskPath} {tr : List RestoreEvent} {s : RestoreArea}
    {r : Except RestoreFailure Unit} (h : evaluateTarget paths = some (tr, s, r)) :
    Prog.Run Eq sampleArea (applyRestoreTarget sampleVersions samplePath samplePrepared 1 ()) tr s
      (.ret (r, ())) := by
  have hrun := Prog.advance_run Eq (restoreAnswer paths) 100 sampleArea
    (applyRestoreTarget sampleVersions samplePath samplePrepared 1 ())
  rw [evaluateTarget] at h
  generalize Prog.advance (restoreAnswer paths) 100 sampleArea
    (applyRestoreTarget sampleVersions samplePath samplePrepared 1 ()) = result at h hrun
  obtain ⟨tr₁, s₁, p⟩ := result
  cases p with
  | ret a =>
    obtain ⟨rfl, rfl, rfl⟩ : tr₁ = tr ∧ s₁ = s ∧ a.1 = r := by simpa using h
    exact hrun
  | tx f label k => cases h
  | ask c k => cases h

/-- The paths that the listings of a trace found. -/
def listings (tr : List RestoreEvent) : List (List DiskPath) :=
  tr.filterMap fun
    | .ask .rglob paths => some paths
    | _ => none

/-- The world has the one file. -/
theorem lists_sampleWorld (file : Str) (content : ByteArray) :
    Lists (sampleWorld file content) [[file]] := by
  intro q hq hsome
  rw [List.mem_singleton]
  by_contra hne
  rw [sampleWorld, Tree.node_put, if_neg hne] at hsome
  cases q with
  | nil => exact hq rfl
  | cons k q => cases hsome

/-- The listings of a trace, checked one by one. -/
theorem listed_of_listings {source : Disk} {tr : List RestoreEvent}
    (h : ∀ paths ∈ listings tr, Lists source paths) : Listed source tr := by
  intro paths hmem
  exact h paths (List.mem_filterMap.mpr ⟨_, hmem, rfl⟩)

/-- With a listing that finds the file, `apply` ends well. -/
theorem evaluate_listed : (evaluateTarget [[levelFile]]).any (fun r => r.2.2.isOk &&
    listings r.1 == [[[levelFile]]]) = true := by
  decide +kernel

/-- With one that finds nothing it ends as well, and the file is in neither world. -/
theorem evaluate_unlisted : (evaluateTarget []).any (fun r => r.2.2.isOk &&
    ((r.2.1.disk.node (worldRoot ++ [levelFile])).isNone &&
      (r.2.1.disk.node (previousRoot 1)).isNone)) = true := by
  decide +kernel

/-- The file of the prepared world is found, and the Restore returns. -/
theorem applyRestoreTarget_recoverable_listed : ∃ tr s,
    Prog.Run Eq sampleArea (applyRestoreTarget sampleVersions samplePath samplePrepared 1 ()) tr s
      (.ret (.ok (), ())) ∧ Recoverable sampleArea samplePrepared 1 tr s := by
  obtain ⟨⟨tr, s, r⟩, hrun, hchecks⟩ := (Option.any_eq_true _ _).mp evaluate_listed
  obtain ⟨hok, hlistings⟩ := (Bool.and_eq_true _ _).mp hchecks
  cases r with
  | error failure => cases hok
  | ok _ =>
    have hrun := evaluateTarget_run hrun
    have hlisted : Listed samplePrepared.worldDirectory tr := listed_of_listings fun paths hmem => by
      rw [beq_iff_eq.mp hlistings, List.mem_singleton] at hmem
      exact hmem ▸ lists_sampleWorld _ _
    exact ⟨tr, s, hrun, (applyRestoreTarget_recoverable hrun hlisted).1⟩

/-- The prepared world cannot be listed: the Restore returns, and neither world is anywhere. -/
theorem applyRestoreTarget_loses : ∃ tr s,
    Prog.Run Eq sampleArea (applyRestoreTarget sampleVersions samplePath samplePrepared 1 ()) tr s
      (.ret (.ok (), ())) ∧ ¬ Recoverable sampleArea samplePrepared 1 tr s := by
  obtain ⟨⟨tr, s, r⟩, hrun, hchecks⟩ := (Option.any_eq_true _ _).mp evaluate_unlisted
  obtain ⟨hok, hgone⟩ := (Bool.and_eq_true _ _).mp hchecks
  obtain ⟨hworld, hprevious⟩ := (Bool.and_eq_true _ _).mp hgone
  rw [Option.isNone_iff_eq_none] at hworld hprevious
  cases r with
  | error failure => cases hok
  | ok _ =>
    refine ⟨tr, s, evaluateTarget_run hrun, fun hrecoverable => ?_⟩
    have hold : (sampleArea.disk.below worldRoot [levelFile]).isSome = true := by decide +kernel
    have hroot : (sampleArea.disk.below worldRoot []).isSome = true := by decide +kernel
    have hnew : (samplePrepared.worldDirectory.node [levelFile]).isSome = true := by decide +kernel
    rcases hrecoverable with h | h | ⟨-, happlied⟩
    · rw [← congrFun h [levelFile], Tree.below, hworld] at hold
      cases hold
    · rw [← congrFun h [], Tree.below, List.append_nil, hprevious] at hroot
      cases hroot
    · rw [← congrFun happlied.world [levelFile], Tree.below, hworld] at hnew
      cases hnew

end Samples

end PalworldManager
