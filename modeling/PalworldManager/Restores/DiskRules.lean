/-
# What the calls of the file system do

What a function of a Restore makes on the disk is said by `Adds`: every path is as it was, or
nothing stood there and now something does that the function makes.  Directories that are made
on the way to a file may be there or not; a file is made whole if its function returns, and in
part, at its own path only, if it raises.
-/

import PalworldManager.Restores.Disk

namespace PalworldManager

open Effects Files Text
open Effects.Exec hiding bind ask

/-- An event of the file system. -/
abbrev DiskEvent := Event DiskLabel DiskCall DiskCall.Reply

/-- Every path is as it was, or nothing stood there and something was made. -/
def Adds (made : DiskPath → Option (Node ByteArray) → Prop) (s t : Disk) : Prop :=
  ∀ q, t.node q = s.node q ∨ s.node q = none ∧ made q (t.node q)

section Adds

variable {made made' : DiskPath → Option (Node ByteArray) → Prop} {s t u : Disk} {q : DiskPath}

/-- Where nothing changed, nothing was made. -/
theorem Adds.refl (s : Disk) : Adds made s s := fun _ => .inl rfl

/-- What two stretches make is what either makes. -/
theorem Adds.trans (h : Adds made s t) (h' : Adds made t u) : Adds made s u := by
  intro q
  rcases h' q with hsame | ⟨hnone, hmade⟩
  · rw [hsame]
    exact h q
  · rcases h q with hsame | ⟨hnone', -⟩
    · exact .inr ⟨hsame ▸ hnone, hmade⟩
    · exact .inr ⟨hnone', hmade⟩

/-- A weaker account of what was made. -/
theorem Adds.mono (h : Adds made s t) (hmade : ∀ q n, made q n → made' q n) : Adds made' s t :=
  fun q => (h q).imp_right fun h' => ⟨h'.1, hmade _ _ h'.2⟩

/-- What stands somewhere stays there. -/
theorem Adds.stays {n : Node ByteArray} (h : Adds made s t) (hq : s.node q = some n) :
    t.node q = some n := by
  rcases h q with hsame | ⟨hnone, -⟩
  · rw [hsame, hq]
  · rw [hq] at hnone
    cases hnone

/-- A new thing at a path where nothing stood. -/
theorem putNew_adds {n : Node ByteArray} {path : DiskPath} :
    Adds (fun q n' => q = path ∧ n' = some n) s (putNew s path n).2 := by
  by_cases hfree : s.node path = none ∧ s.Free path
  · rw [putNew, dif_pos hfree]
    intro q
    rw [Tree.node_put]
    split_ifs with hq
    · exact .inr ⟨hq ▸ hfree.1, hq, rfl⟩
    · exact .inl rfl
  · rw [putNew, dif_neg hfree]
    exact Adds.refl s

/-- A path is put without an error only where none stood and its parent is a directory. -/
theorem putNew_eq_none {n : Node ByteArray} {path : DiskPath} (h : (putNew s path n).1 = none) :
    ∃ hfree : s.node path = none ∧ s.Free path, (putNew s path n).2 = s.put path n hfree.2 := by
  rw [putNew] at h ⊢
  split_ifs at h ⊢ with hfree
  exact ⟨hfree, rfl⟩

end Adds

section Keeps

variable {made : DiskPath → Option (Node ByteArray) → Prop}

/-- A call to the file system changes nothing that stands in it. -/
theorem keeps_diskCall (op : DiskOp) (path : DiskPath) :
    (diskCall op path).Keeps (fun s _ t => Adds made s t) anyLocals := by
  refine keeps_bind (Exec.keeps_ask _ fun _ s => Adds.refl s) fun answer => ?_
  cases answer with
  | none => exact keeps_pure ()
  | some error => exact keeps_raise _

/-- A change keeps `Adds` where its function on the disk does. -/
theorem keeps_diskTx {f : Disk → Option OsError × Disk} {label : DiskLabel}
    (h : ∀ s, Adds made s (f s).2) :
    (diskTx f label).Keeps (fun s _ t => Adds made s t) anyLocals := by
  refine keeps_bind (keeps_tx _ _ h) fun answer => ?_
  cases answer with
  | none => exact keeps_pure ()
  | some error => exact keeps_raise _

/-- A test changes nothing that stands on the disk. -/
theorem keeps_diskTest (op : DiskOp) (path : DiskPath) (test : Option (Node ByteArray) → Bool) :
    (diskTest op path test).Keeps (fun s _ t => Adds made s t) anyLocals := by
  refine keeps_bind (keeps_tx _ _ fun s => Adds.refl s) fun found =>
    keeps_bind (Exec.keeps_ask _ fun _ s => Adds.refl s) fun answer => ?_
  cases answer with
  | none => exact keeps_pure found
  | some error =>
    cases error with
    | fileNotFound => exact keeps_pure found
    | permission => exact keeps_raise _
    | other => exact keeps_raise _

/-- `os.mkdir` makes a directory or nothing. -/
theorem keeps_osMkdir {path : DiskPath} (h : made path (some .directory)) :
    (osMkdir path).Keeps (fun s _ t => Adds made s t) anyLocals :=
  keeps_bind (keeps_diskCall _ _) fun _ => keeps_diskTx fun _ =>
    putNew_adds.mono fun q n hq => by
      obtain ⟨rfl, rfl⟩ := hq
      exact h

/-- `mkdir(exist_ok=True)` makes what its `os.mkdir` and its fallback make. -/
theorem keeps_mkdirExistOk {path : DiskPath} {missing : DiskM Unit}
    (h : made path (some .directory))
    (hmissing : missing.Keeps (fun s _ t => Adds made s t) anyLocals) :
    (mkdirExistOk path missing).Keeps (fun s _ t => Adds made s t) anyLocals := by
  refine keeps_tryCatch (keeps_osMkdir h) fun e => ?_
  have hfound (error : OsError) : (do
      let found ← isDir path
      raiseIf (found = false) (RestoreFailure.os error)).Keeps
        (fun s _ t => Adds made s t) anyLocals :=
    keeps_bind (keeps_diskTest _ path _) fun _ => keeps_raiseIf _ _
  cases e with
  | os error =>
    cases error with
    | fileNotFound => exact hmissing
    | permission => exact hfound _
    | other => exact hfound _
  | validation _ _ => exact keeps_raise _
  | apply _ _ => exact keeps_raise _
  | backup _ => exact keeps_raise _
  | tar => exact keeps_raise _
  | settings _ => exact keeps_raise _

/-- A directory and the ones on the way to it. -/
def Ways (path : DiskPath) (q : DiskPath) (n : Option (Node ByteArray)) : Prop :=
  q <+: path ∧ n = some .directory

/-- Only directories on the way are made. -/
theorem keeps_mkdirParents {path : DiskPath} (r : List Str) (h : r.reverse <+: path) :
    (mkdirParents r).Keeps (fun s _ t => Adds (Ways path) s t) anyLocals := by
  induction r with
  | nil => exact keeps_mkdirExistOk ⟨h, rfl⟩ (keeps_raise _)
  | cons k r ih =>
    have hr : r.reverse <+: path := by
      rw [List.reverse_cons] at h
      exact (List.prefix_append _ _).trans h
    exact keeps_mkdirExistOk ⟨h, rfl⟩ <| keeps_bind (ih hr) fun _ =>
      keeps_mkdirExistOk ⟨h, rfl⟩ (keeps_raise _)

end Keeps

section Wp

variable {made : DiskPath → Option (Node ByteArray) → Prop} {s₀ s : Disk} {tr : List DiskEvent}
  {α : Type}

/-- What is made so far, at every step. -/
abbrev AddsSince (made : DiskPath → Option (Node ByteArray) → Prop) (s₀ : Disk) :
    Disk → List DiskEvent → DiskEvent → Disk → Prop := fun _ _ _ t => Adds made s₀ t

/-- **What every step adds is added by the whole.** -/
theorem wp_adds {x : DiskM α} (hx : x.Keeps (fun s _ t => Adds made s t) anyLocals)
    (h : Adds made s₀ s) :
    wp Eq (AddsSince made s₀) x (fun _ _ t _ => Adds made s₀ t) (fun _ _ t _ => Adds made s₀ t)
      () s tr := by
  refine wp_mono (wp_keeps (I := fun t _ => Adds made s₀ t) hx ?_ ?_ h) (fun _ _ _ _ h => h.2)
    fun _ _ _ _ h => h.2
  · rintro a b _ rfl hI
    exact hI
  · exact fun _ _ _ _ hI hstep => ⟨hI.trans hstep, hI.trans hstep⟩

/-- A call leaves the disk as it is, whether it answers or fails. -/
theorem wp_diskCall {op : DiskOp} {path : DiskPath}
    {G : Disk → List DiskEvent → DiskEvent → Disk → Prop}
    {Q : Unit → Unit → Disk → List DiskEvent → Prop}
    {E : RestoreFailure → Unit → Disk → List DiskEvent → Prop} (hG : ∀ tr e, G s tr e s)
    (hQ : ∀ tr, Q () () s tr) (hE : ∀ error tr, E (.os error) () s tr) :
    wp Eq G (diskCall op path) Q E () s tr := by
  rw [diskCall, wp_bind, wp_ask]
  rintro s₁ rfl answer
  refine ⟨hG _ _, ?_⟩
  cases answer with
  | none => exact (wp_pure _).mpr (hQ _)
  | some error => exact (wp_raise _).mpr (hE error _)

/-- A step that returns has done what it says. -/
theorem wp_diskTx {f : Disk → Option OsError × Disk} {label : DiskLabel}
    {G : Disk → List DiskEvent → DiskEvent → Disk → Prop}
    {Q : Unit → Unit → Disk → List DiskEvent → Prop}
    {E : RestoreFailure → Unit → Disk → List DiskEvent → Prop}
    (hG : ∀ tr e, G s tr e (f s).2) (hQ : (f s).1 = none → ∀ tr, Q () () (f s).2 tr)
    (hE : ∀ error, (f s).1 = some error → ∀ tr, E (.os error) () (f s).2 tr) :
    wp Eq G (diskTx f label) Q E () s tr := by
  rw [diskTx, wp_bind, wp_tx]
  rintro s₁ rfl
  refine ⟨hG _ _, ?_⟩
  cases hanswer : (f s).1 with
  | none => exact (wp_pure _).mpr (hQ hanswer _)
  | some error => exact (wp_raise _).mpr (hE error hanswer _)

/-- A test leaves the disk as it is, whichever way it answers. -/
theorem wp_diskTest {op : DiskOp} {path : DiskPath} {test : Option (Node ByteArray) → Bool}
    {G : Disk → List DiskEvent → DiskEvent → Disk → Prop}
    {Q : Bool → Unit → Disk → List DiskEvent → Prop}
    {E : RestoreFailure → Unit → Disk → List DiskEvent → Prop} (hG : ∀ tr e, G s tr e s)
    (hQ : ∀ tr, Q (test (s.node path)) () s tr) (hE : ∀ error tr, E (.os error) () s tr) :
    wp Eq G (diskTest op path test) Q E () s tr := by
  rw [diskTest, wp_bind, wp_tx]
  rintro s₁ rfl
  refine ⟨hG _ _, ?_⟩
  rw [wp_bind, wp_ask]
  rintro s₂ rfl answer
  refine ⟨hG _ _, ?_⟩
  cases answer with
  | none => exact (wp_pure _).mpr (hQ _)
  | some error =>
    cases error with
    | fileNotFound => exact (wp_pure _).mpr (hQ _)
    | permission => exact (wp_raise _).mpr (hE _ _)
    | other => exact (wp_raise _).mpr (hE _ _)

/-- A directory that is made stands where nothing stood. -/
theorem wp_osMkdir {path : DiskPath} :
    wp Eq (AddsSince (fun q n => q = path ∧ n = some .directory) s) (osMkdir path)
      (fun _ _ t _ => Adds (fun q n => q = path ∧ n = some .directory) s t ∧
        ∃ hfree : s.node path = none ∧ s.Free path, t = s.put path .directory hfree.2)
      (fun _ _ t _ => Adds (fun q n => q = path ∧ n = some .directory) s t) () s tr := by
  have hsame : Adds (fun q n => q = path ∧ n = some .directory) s s := Adds.refl s
  have hnew : Adds (fun q n => q = path ∧ n = some .directory) s (putNew s path .directory).2 :=
    putNew_adds
  rw [osMkdir, wp_bind]
  refine wp_diskCall (fun _ _ => hsame) (fun tr₁ => ?_) fun _ _ => hsame
  exact wp_diskTx (fun _ _ => hnew) (fun hnone _ => ⟨hnew, putNew_eq_none hnone⟩) fun _ _ _ => hnew

/-- A directory that is moved is elsewhere; one that is not stays. -/
theorem wp_replaceDirectory {a b : DiskPath} :
    wp Eq (fun _ _ _ t => t = s ∨ ∃ h, t = s.move a b h) (replaceDirectory a b)
      (fun _ _ t _ => ∃ h, t = s.move a b h) (fun _ _ t _ => t = s) () s tr := by
  rw [replaceDirectory, wp_bind]
  refine wp_diskCall (fun _ _ => .inl rfl) (fun tr₁ => ?_) fun _ _ => rfl
  by_cases h : s.Movable a b
  · refine wp_diskTx (fun _ _ => ?_) (fun _ _ => ?_) fun error herror _ => ?_
    · rw [dif_pos h]
      exact .inr ⟨h, rfl⟩
    · rw [dif_pos h]
      exact ⟨h, rfl⟩
    · rw [dif_pos h] at herror
      cases herror
  · refine wp_diskTx (fun _ _ => ?_) (fun hnone _ => ?_) fun error _ _ => ?_
    · rw [dif_neg h]
      exact .inl rfl
    · rw [dif_neg h] at hnone
      cases hnone
    · rw [dif_neg h]

/-- The path of a file that is being written. -/
def At (path : DiskPath) (q : DiskPath) (_ : Option (Node ByteArray)) : Prop := q = path

/-- A file that is being written, as far as it is. -/
structure Written (path : DiskPath) (content : ByteArray) (s₀ t : Disk) : Prop where
  adds : Adds (At path) s₀ t
  node : t.node path = some (.file content)
  free : t.Free path
  absent : s₀.node path = none

/-- One more block of a file that is being written. -/
theorem Written.extend {path : DiskPath} {content block : ByteArray}
    (h : Written path content s₀ s) :
    Written path (content ++ block) s₀ (PalworldManager.extend s path block) := by
  have heq : PalworldManager.extend s path block = s.put path (.file (content ++ block)) h.free := by
    rw [PalworldManager.extend, h.node]
    simp only [dif_pos h.free]
  rw [heq]
  refine ⟨fun q => ?_, ?_, h.free.put, h.absent⟩
  · rw [Tree.node_put]
    split_ifs with hq
    · exact .inr ⟨hq ▸ h.absent, hq⟩
    · exact (h.adds q).imp_right fun h' => ⟨h'.1, h'.2⟩
  · rw [Tree.node_put, if_pos rfl]

/-- The blocks from a position on go after what is written. -/
theorem wp_copyBlocks {source path : DiskPath} {content : ByteArray} (start n : ℕ)
    (h : Written path (content.extract 0 start) s₀ s) (hn : content.size ≤ start + n * blockSize) :
    wp Eq (AddsSince (At path) s₀) (copyBlocks source path content start n)
      (fun _ _ t _ => Written path content s₀ t) (fun _ _ t _ => Adds (At path) s₀ t) () s tr := by
  induction n generalizing start s tr with
  | zero =>
    have hall : content.extract 0 start = content := by
      rw [Nat.zero_mul, Nat.add_zero] at hn
      rw [← Nat.max_eq_left hn, ByteArray.extract_zero_max_size]
    rw [hall] at h
    exact wp_diskCall (fun _ _ => h.adds) (fun _ => h) fun _ _ => h.adds
  | succ n ih =>
    rw [copyBlocks, wp_bind]
    refine wp_diskCall (fun _ _ => h.adds) (fun tr₁ => ?_) fun _ _ => h.adds
    rw [wp_bind]
    refine wp_diskCall (fun _ _ => h.adds) (fun tr₂ => ?_) fun _ _ => h.adds
    rw [wp_bind, wp_tx]
    rintro s₁ rfl
    have hnext := @Written.extend _ _ _ _ (content.extract start (start + blockSize)) h
    have happend : content.extract 0 start ++ content.extract start (start + blockSize) =
        content.extract 0 (start + blockSize) := by
      rw [ByteArray.extract_append_extract, Nat.min_eq_left (Nat.zero_le _),
        Nat.max_eq_right (Nat.le_add_right _ _)]
    rw [happend] at hnext
    refine ⟨hnext.adds, ih _ hnext ?_⟩
    rw [Nat.succ_mul] at hn
    omega

/-- The blocks that `copyfileobj` reads cover the file. -/
theorem le_blocks (n : ℕ) : n ≤ 0 + (n + blockSize - 1) / blockSize * blockSize := by
  have hpos : 0 < blockSize := by decide
  have hdiv := Nat.lt_div_mul_add (a := n + blockSize - 1) hpos
  omega

/-- **A file that is copied** to a path is there as a whole if the copy returns, and nothing
else is touched. -/
theorem wp_copyInto {source path : DiskPath} {content : ByteArray} :
    wp Eq (AddsSince (At path) s) (withExclusive path (copyfileobj source path content))
      (fun _ _ t _ => Adds (At path) s t ∧ t.node path = some (.file content))
      (fun _ _ t _ => Adds (At path) s t) () s tr := by
  rw [withExclusive, wp_bind, openExclusive, wp_bind]
  have hsame : Adds (At path) s s := Adds.refl s
  refine wp_diskCall (fun _ _ => hsame) (fun tr₁ => ?_) fun _ _ => hsame
  have hnew : Adds (fun q n => q = path ∧ n = some (.file .empty)) s
      (putNew s path (.file .empty)).2 := putNew_adds
  have hadds : Adds (At path) s (putNew s path (.file .empty)).2 := hnew.mono fun q n h => h.1
  refine wp_diskTx (fun _ _ => hadds) (fun hnone tr₂ => ?_) fun _ _ _ => hadds
  obtain ⟨⟨habsent, hfree⟩, heq⟩ := putNew_eq_none hnone
  have hwritten : Written path (content.extract 0 0) s (putNew s path (.file .empty)).2 := by
    refine ⟨hadds, ?_, heq ▸ hfree.put, habsent⟩
    rw [heq, Tree.node_put, if_pos rfl, ByteArray.extract_same]
  rw [wp_ensuring, copyfileobj]
  refine wp_mono (wp_copyBlocks 0 _ hwritten (le_blocks _)) (fun _ _ t tr h => ?_)
    fun e _ t tr h => ?_
  · exact wp_diskCall (fun _ _ => h.adds) (fun _ => ⟨h.adds, h.node⟩) fun _ _ => h.adds
  · exact wp_diskCall (fun _ _ => h) (fun _ => h) fun _ _ => h

end Wp

end PalworldManager
