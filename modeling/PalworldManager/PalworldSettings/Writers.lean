/-
# Several writers of the settings file

Calls of `FilePalworldSettingsStorage.write` by several processes: those of `save`, in the web
process, and those of a Restore, in the worker.  Each call compares the version of the file
with the one its caller read before, and each takes its steps on its own, so that another call
may replace the file between the comparison and the replacement.  The backup of the settings
is made exclusively, but its name has a time in it: it keeps two calls apart only if they read
the same clock.

What one call guarantees is a property of `write` among parties that leave the file alone
(`wp_write`); in a run it holds of each call from where it opens the file to where the file
is next replaced (`Inv`).
-/

import PalworldManager.Effects.Paths
import PalworldManager.PalworldSettings.Saving

namespace PalworldManager

open Effects Text
open Effects.Exec hiding bind ask

section Steps

variable {α : Type} {x : SettingsM α} {s : SettingsFile} {tr : List SettingsEvent}

/-- A body that only asks: it neither opens the file nor replaces it. -/
def Asks (x : SettingsM α) : Prop :=
  x.Keeps (fun s e s' => s' = s ∧ ∀ l, e ≠ .tx l) anyLocals

/-- With the same transactions. -/
def SameSteps (tr tr' : List SettingsEvent) : Prop := ∀ l, .tx l ∈ tr' ↔ .tx l ∈ tr

/-- A call of the system asks. -/
theorem asks_settingsAsk (call : SettingsCall) : Asks (settingsAsk call) :=
  Exec.keeps_ask call fun _ _ => ⟨rfl, nofun⟩

/-- So does a file operation. -/
theorem asks_fileCall (call : FileCall) : Asks (fileCall call) := by
  refine keeps_bind (asks_settingsAsk _) fun answer => ?_
  cases answer with
  | none => exact keeps_pure ()
  | some error => exact keeps_raise _

/-- So does the look at the open file. -/
theorem asks_fstat : Asks fstat := by
  refine keeps_bind (asks_settingsAsk _) fun answer => ?_
  cases answer with
  | ok fileStat => exact keeps_pure fileStat
  | error error => exact keeps_raise _

/-- So does the look for the temporary file. -/
theorem asks_temporaryExists : Asks temporaryExists := by
  refine keeps_bind (asks_settingsAsk _) fun answer => ?_
  cases answer with
  | ok found => exact keeps_pure found
  | error error => exact keeps_raise _

/-- So does the check of one link. -/
theorem asks_rejectSymlink (parts : List String) : Asks (rejectSymlink parts) := by
  refine keeps_bind (asks_settingsAsk _) fun answer => ?_
  cases answer with
  | ok isLink => exact keeps_raiseIf _ _
  | error error =>
    cases error with
    | fileNotFound => exact keeps_pure ()
    | permission => exact keeps_raise _
    | other => exact keeps_raise _

/-- So does the check of all links of a path. -/
theorem asks_rejectSymlinkComponents (current parts : List String) :
    Asks (rejectSymlinkComponents current parts) := by
  induction parts generalizing current with
  | nil => exact keeps_pure ()
  | cons part parts ih => exact keeps_bind (asks_rejectSymlink _) fun _ => ih _

/-- A body with an open file asks if it does. -/
theorem asks_withFile (hx : Asks x) : Asks (withFile x) :=
  keeps_bind (asks_fileCall _) fun _ => keeps_ensuring hx (asks_fileCall _)

/-- To write a file is to ask. -/
theorem asks_writeFile : Asks (do
    fileCall .write
    fileCall .flush
    fileCall .fsync) :=
  keeps_bind (asks_fileCall _) fun _ => keeps_bind (asks_fileCall _) fun _ => asks_fileCall _

/-- So is to write the backup. -/
theorem asks_writeExclusive : Asks writeExclusive :=
  keeps_bind (asks_fileCall _) fun _ => asks_withFile <|
    keeps_bind (asks_fileCall _) fun _ => asks_writeFile

/-- So is to remove the temporary file. -/
theorem asks_removeTemporary : Asks removeTemporary := by
  refine keeps_bind asks_temporaryExists fun found => ?_
  exact keeps_ite (fun _ => asks_fileCall _) fun _ => keeps_pure ()

/-- **What only asks is passed over**, among parties that leave the file alone. -/
theorem wp_asks {G : SettingsFile → List SettingsEvent → SettingsEvent → SettingsFile → Prop}
    {Q : α → Unit → SettingsFile → List SettingsEvent → Prop}
    {E : SettingsError → Unit → SettingsFile → List SettingsEvent → Prop} (hx : Asks x)
    (hG : ∀ tr call answer, G s tr (.ask call answer) s)
    (h : ∀ tr', SameSteps tr tr' → (∀ a, Q a () s tr') ∧ ∀ e, E e () s tr') :
    wp Eq G x Q E () s tr := by
  have hI := wp_keeps (I := fun s' tr' => s' = s ∧ SameSteps tr tr') (G := G) (ℓ := ()) hx
    (fun (a b : SettingsFile) _ (hab : a = b) h => hab ▸ h)
    (fun a tr' e b h hstep => ?_) ⟨rfl, fun _ => Iff.rfl⟩
  · exact wp_mono hI (fun a _ s' tr' h' => h'.2.1 ▸ (h tr' h'.2.2).1 a)
      fun e _ s' tr' h' => h'.2.1 ▸ (h tr' h'.2.2).2 e
  · obtain ⟨rfl, hsame⟩ := h
    obtain ⟨rfl, htx⟩ := hstep
    cases e with
    | tx l => exact absurd rfl (htx l)
    | ask call answer =>
      refine ⟨⟨rfl, fun l => ?_⟩, hG _ _ _⟩
      rw [List.mem_append, hsame l]
      simp

end Steps

section Checked

variable (sha256 : ByteArray → String) (expectedVersion : String)

/-- What a call of `write` guarantees of each step: it opens the file before all else, and
once, and what it replaces has the expected version. -/
structure Checked (s : SettingsFile) (tr : List SettingsEvent) (e : SettingsEvent)
    (s' : SettingsFile) : Prop where
  first : ∀ l, e = .tx l → l ≠ .opened → .tx .opened ∈ tr
  once : e = .tx .opened → .tx .opened ∉ tr
  replaced : e = .tx .replaced → ∃ bytes, s = some bytes ∧ sha256 bytes = expectedVersion

variable {sha256 expectedVersion} {path : SettingsPath} {content : Str} {α : Type}
  {s : SettingsFile} {tr : List SettingsEvent}
  {E : SettingsError → Unit → SettingsFile → List SettingsEvent → Prop}

/-- What is asked needs no check. -/
theorem checked_ask (s : SettingsFile) (tr : List SettingsEvent) (call : SettingsCall)
    (answer : call.Reply) : Checked sha256 expectedVersion s tr (.ask call answer) s :=
  ⟨nofun, nofun, nofun⟩

/-- What only asks, before a body that goes on from any trace with the same transactions. -/
theorem wp_asks_bind {x : SettingsM α} {β : Type} {f : α → SettingsM β}
    {Q : β → Unit → SettingsFile → List SettingsEvent → Prop} (hx : Asks x)
    (h : ∀ tr', SameSteps tr tr' →
      (∀ a, wp Eq (Checked sha256 expectedVersion) (f a) Q E () s tr') ∧ ∀ e, E e () s tr') :
    wp Eq (Checked sha256 expectedVersion) (x >>= f) Q E () s tr :=
  (wp_bind _ _).mpr (wp_asks hx (checked_ask s) h)

/-- The file is read as it stood when it was opened. -/
theorem wp_readFile {bytes : ByteArray}
    {Q : FileStat × ByteArray → Unit → SettingsFile → List SettingsEvent → Prop}
    (h : ∀ tr', SameSteps tr tr' →
      (∀ fileStat, Q (fileStat, bytes.extract 0 (maxIniBytes + 1)) () s tr') ∧ ∀ e, E e () s tr') :
    wp Eq (Checked sha256 expectedVersion) (readFile bytes) Q E () s tr := by
  refine wp_asks_bind asks_fstat fun tr₁ h₁ => ⟨fun fileStat => ?_, (h tr₁ h₁).2⟩
  rw [wp_bind, wp_raiseIf]
  refine ⟨fun _ => (h tr₁ h₁).2 _, fun _ => ?_⟩
  refine wp_asks_bind (asks_fileCall _) fun tr₂ h₂ => ?_
  have h₁₂ : SameSteps tr tr₂ := fun l => (h₂ l).trans (h₁ l)
  exact ⟨fun _ => (wp_pure _).mpr ((h tr₂ h₁₂).1 fileStat), (h tr₂ h₁₂).2⟩

/-- What `_read_current` returns stood in the file when it was opened. -/
theorem wp_readCurrent {Q : Str × ByteArray × FileStat → Unit → SettingsFile → List SettingsEvent → Prop}
    (hfresh : .tx .opened ∉ tr)
    (h : ∀ bytes content fileStat tr', s = some bytes → .tx .opened ∈ tr' →
      Q (content, bytes, fileStat) () s tr') :
    wp Eq (Checked sha256 expectedVersion) (readCurrent path) Q (fun _ _ _ _ => True) () s tr := by
  rw [readCurrent, wp_bind, wp_tryCatch]
  refine wp_asks_bind (asks_rejectSymlinkComponents _ _) fun tr₁ h₁ => ⟨fun _ => ?_, fun _ =>
    (wp_raise _).mpr trivial⟩
  rw [wp_bind, openFile]
  refine wp_asks_bind (asks_fileCall _) fun tr₂ h₂ => ⟨fun _ => ?_, fun _ => (wp_raise _).mpr trivial⟩
  rw [wp_bind, wp_tx]
  rintro s₁ rfl
  have hfresh₂ : .tx .opened ∉ tr₂ := fun hmem => hfresh ((h₁ _).mp ((h₂ _).mp hmem))
  refine ⟨⟨fun l hl hopened => absurd (Event.tx.inj hl).symm hopened, fun _ => hfresh₂, nofun⟩,
    ?_⟩
  cases s with
  | none => exact (wp_raise _).mpr ((wp_raise _).mpr trivial)
  | some bytes =>
    refine (wp_pure _).mpr ?_
    rw [withFile]
    refine wp_asks_bind (asks_fileCall _) fun tr₃ h₃ => ⟨fun _ => ?_, fun _ =>
      (wp_raise _).mpr trivial⟩
    have hopened : .tx .opened ∈ tr₃ := (h₃ _).mpr (by simp)
    rw [wp_ensuring]
    refine wp_readFile fun tr₄ h₄ => ⟨fun fileStat => ?_, fun _ => ?_⟩
    · refine wp_asks (asks_fileCall _) (checked_ask _) fun tr₅ h₅ => ⟨fun _ => ?_, fun _ =>
        (wp_raise _).mpr trivial⟩
      have hopened₅ : .tx .opened ∈ tr₅ := (h₅ _).mpr ((h₄ _).mpr hopened)
      simp only [wp_bind, wp_raiseIf]
      refine ⟨fun _ => trivial, fun hlong => ?_⟩
      have hsize : bytes.size ≤ maxIniBytes := by
        rw [ByteArray.size_extract] at hlong
        omega
      rw [extract_of_size_le hsize]
      cases decodeUtf8 bytes with
      | none => exact (wp_raise _).mpr trivial
      | some content => exact (wp_pure _).mpr (h bytes content fileStat tr₅ rfl hopened₅)
    · refine wp_asks (asks_fileCall _) (checked_ask _) fun _ _ => ⟨fun _ => (wp_raise _).mpr trivial,
        fun _ => (wp_raise _).mpr trivial⟩

/-- The file is replaced once, and is what it was until then. -/
theorem wp_atomicReplace {bytes new : ByteArray}
    {Q : Unit → Unit → SettingsFile → List SettingsEvent → Prop}
    (hopened : .tx .opened ∈ tr) (hs : s = some bytes) (hversion : sha256 bytes = expectedVersion)
    (hQ : ∀ tr', Q () () (some new) tr') (hE : ∀ e s tr, E e () s tr) :
    wp Eq (Checked sha256 expectedVersion) (atomicReplace path new) Q E () s tr := by
  -- what `finally` does once the body has raised
  have hend (e : SettingsError) (s : SettingsFile) (tr : List SettingsEvent) :
      wp Eq (Checked sha256 expectedVersion) removeTemporary (fun _ => E e) E () s tr :=
    wp_asks asks_removeTemporary (checked_ask _) fun _ _ => ⟨fun _ => hE _ _ _, fun _ => hE _ _ _⟩
  rw [atomicReplace]
  refine wp_asks_bind (asks_fileCall _) fun tr₁ h₁ => ⟨fun _ => ?_, fun _ => hE _ _ _⟩
  rw [wp_ensuring]
  refine wp_asks_bind (asks_fileCall _) fun tr₂ h₂ => ⟨fun _ => ?_, fun _ => hend _ _ _⟩
  refine wp_asks_bind (asks_withFile asks_writeFile) fun tr₃ h₃ => ⟨fun _ => ?_, fun _ => hend _ _ _⟩
  refine wp_asks_bind (asks_rejectSymlinkComponents _ _) fun tr₄ h₄ => ⟨fun _ => ?_, fun _ =>
    hend _ _ _⟩
  rw [wp_bind, replaceFile]
  refine wp_asks_bind (asks_fileCall _) fun tr₅ h₅ => ⟨fun _ => ?_, fun _ => hend _ _ _⟩
  rw [wp_tx]
  rintro s₁ rfl
  have hopened₅ : .tx .opened ∈ tr₅ :=
    (h₅ _).mpr ((h₄ _).mpr ((h₃ _).mpr ((h₂ _).mpr ((h₁ _).mpr hopened))))
  refine ⟨⟨fun _ _ _ => hopened₅, nofun, fun _ => ⟨bytes, hs, hversion⟩⟩, ?_⟩
  refine wp_asks_bind (asks_fileCall _) fun tr₆ _ => ⟨fun _ => ?_, fun _ => hend _ _ _⟩
  refine wp_asks (keeps_ensuring (asks_fileCall _) (asks_fileCall _)) (checked_ask _) fun tr₇ _ =>
    ⟨fun _ => ?_, fun _ => hend _ _ _⟩
  refine wp_asks asks_removeTemporary (checked_ask _) fun tr₈ _ => ⟨fun _ => ?_, fun _ => hE _ _ _⟩
  exact hQ tr₈

/-- **What a call of `write` guarantees**, whatever the file is when it starts: among parties
that leave the file alone it is checked, and if it returns the file is what it was given. -/
theorem wp_write (s : SettingsFile) :
    wp Eq (Checked sha256 expectedVersion) (write sha256 path expectedVersion content)
      (fun _ _ s _ => s.isSome ∧ s = encodeUtf8 content) (fun _ _ _ _ => True) () s [] := by
  rw [write, wp_bind]
  refine wp_readCurrent (by simp) fun bytes _ fileStat tr₁ hs hopened => ?_
  simp only [wp_bind, wp_raiseIf]
  refine ⟨fun _ => trivial, fun hversion => ?_⟩
  rw [not_not] at hversion
  rw [encode, wp_bind, wp_tx]
  rintro s₁ rfl
  refine ⟨⟨fun _ _ _ => hopened, by simp, by simp⟩, ?_⟩
  cases hnew : encodeUtf8 content with
  | none => exact (wp_raise _).mpr trivial
  | some new =>
    rw [wp_pure, wp_bind, wp_raiseIf]
    refine ⟨fun _ => trivial, fun _ => ?_⟩
    rw [wp_bind]
    refine wp_asks (asks_settingsAsk _) (checked_ask _) fun tr₂ h₂ => ⟨fun _ => ?_, fun _ => trivial⟩
    have hopened₂ : .tx .opened ∈ tr₂ := (h₂ _).mpr (List.mem_append_left _ hopened)
    rw [wp_bind, wp_tryCatch]
    refine wp_asks_bind asks_writeExclusive fun tr₃ h₃ => ⟨fun _ => ?_, fun _ =>
      (wp_raise _).mpr trivial⟩
    have hopened₃ : .tx .opened ∈ tr₃ := (h₃ _).mpr hopened₂
    exact wp_atomicReplace hopened₃ hs hversion (fun _ => (wp_pure _).mpr ⟨rfl, rfl⟩)
      fun _ _ _ => (wp_raise _).mpr trivial

/-- A call that returns has replaced the file. -/
theorem passes_write : (write sha256 path expectedVersion content).Passes (fun _ => True)
    (fun _ e => e = .tx .replaced) nothing anything := by
  have hreplace (new : ByteArray) : (replaceFile new).Passes (fun _ => True)
      (fun _ e => e = .tx .replaced) nothing anything :=
    passes_after fun _ => passes_tx fun _ _ => .inl rfl
  have hatomic (new : ByteArray) : (atomicReplace path new).Passes (fun _ => True)
      (fun _ e => e = .tx .replaced) nothing anything := by
    refine passes_after fun _ => passes_ensuring ?_ (passes_anything _)
    exact passes_after fun _ => passes_after fun _ => passes_after fun _ => passes_before (hreplace new)
  refine passes_after fun _ => passes_after fun _ => passes_after fun new => passes_after fun _ => ?_
  refine passes_after fun _ => passes_before
    (passes_tryCatch (E := anything) ?_ fun _ _ => passes_raise trivial)
  exact passes_after fun _ => hatomic new

/-- Only the replacement changes the file. -/
theorem keeps_write : (write sha256 path expectedVersion content).Keeps
    (fun s e s' => e ≠ .tx .replaced → s' = s) anyLocals := by
  have hasks {α : Type} {x : SettingsM α} (hx : Asks x) :
      x.Keeps (fun s e s' => e ≠ .tx .replaced → s' = s) anyLocals :=
    hx.mono fun _ _ _ h _ => h.1
  have hread (bytes : ByteArray) : Asks (readFile bytes) := by
    refine keeps_bind asks_fstat fun _ => keeps_bind (keeps_raiseIf _ _) fun _ => ?_
    exact keeps_bind (asks_fileCall _) fun _ => keeps_pure _
  have hopen : openFile.Keeps (fun s e s' => e ≠ .tx .replaced → s' = s) anyLocals := by
    refine keeps_bind (hasks (asks_fileCall _)) fun _ => keeps_bind (keeps_tx _ _ fun _ _ => rfl) ?_
    rintro (_ | bytes)
    · exact keeps_raise _
    · exact keeps_pure bytes
  have hcurrent : (readCurrent path).Keeps (fun s e s' => e ≠ .tx .replaced → s' = s) anyLocals := by
    refine keeps_bind (keeps_tryCatch ?_ fun _ => keeps_raise _) fun r =>
      keeps_bind (keeps_raiseIf _ _) fun _ => ?_
    · exact keeps_bind (hasks (asks_rejectSymlinkComponents _ _)) fun _ =>
        keeps_bind hopen fun bytes => hasks (asks_withFile (hread bytes))
    · cases decodeUtf8 r.2 with
      | none => exact keeps_raise _
      | some content => exact keeps_pure _
  have hencode : (encode content).Keeps (fun s e s' => e ≠ .tx .replaced → s' = s) anyLocals := by
    refine keeps_bind (keeps_tx _ _ fun _ _ => rfl) fun _ => ?_
    cases encodeUtf8 content with
    | none => exact keeps_raise _
    | some bytes => exact keeps_pure bytes
  have hreplace (new : ByteArray) : (atomicReplace path new).Keeps
      (fun s e s' => e ≠ .tx .replaced → s' = s) anyLocals := by
    refine keeps_bind (hasks (asks_fileCall _)) fun _ =>
      keeps_ensuring ?_ (hasks asks_removeTemporary)
    refine keeps_bind (hasks (asks_fileCall _)) fun _ =>
      keeps_bind (hasks (asks_withFile asks_writeFile)) fun _ =>
      keeps_bind (hasks (asks_rejectSymlinkComponents _ _)) fun _ =>
      keeps_bind (keeps_bind (hasks (asks_fileCall _)) fun _ => ?_) fun _ =>
      keeps_bind (hasks (asks_fileCall _)) fun _ =>
      keeps_ensuring (hasks (asks_fileCall _)) (hasks (asks_fileCall _))
    exact keeps_tx _ _ fun _ hne => absurd rfl hne
  refine keeps_bind hcurrent fun _ => keeps_bind (keeps_raiseIf _ _) fun _ =>
    keeps_bind hencode fun new => keeps_bind (keeps_raiseIf _ _) fun _ =>
    keeps_bind (hasks (asks_settingsAsk _)) fun _ => keeps_bind (keeps_tryCatch ?_ fun _ =>
      keeps_raise _) fun _ => keeps_pure _
  exact keeps_bind (hasks asks_writeExclusive) fun _ => hreplace new

end Checked

/-- What is left of a call of `write`. -/
abbrev WriteCall :=
  Prog SettingsFile SettingsLabel SettingsCall SettingsCall.Reply (Except SettingsError String × Unit)

/-- A call of `write`: its arguments, what is left of it, and what it did so far. -/
structure Writer where
  expectedVersion : String
  content : Str
  rest : WriteCall
  trace : List SettingsEvent

/-- The settings file, the backups of it that exist, and the calls. -/
structure SettingsSystem where
  file : SettingsFile
  backups : List String
  writers : List Writer

/-- A step of a call, and the file before it. -/
structure WriterStep where
  writer : ℕ
  event : SettingsEvent
  before : SettingsFile

/-- The time that a call read. -/
def clockOf (tr : List SettingsEvent) : Option String :=
  tr.findSome? fun
    | .ask .clock answer => some answer
    | _ => none

/-- Whether a step makes the backup. -/
def makesBackup : SettingsEvent → Bool
  | .ask (.file .openExclusive) answer => Option.isNone answer
  | _ => false

/-- Whether a step opens the file. -/
def opens : SettingsEvent → Bool
  | .tx .opened => true
  | _ => false

/-- Whether a step replaces the file. -/
def replaces : SettingsEvent → Bool
  | .tx .replaced => true
  | _ => false

/-- What replaces the file. -/
theorem replaces_iff {e : SettingsEvent} : replaces e = true ↔ e = .tx .replaced := by
  rcases e with l | ⟨call, answer⟩
  · cases l <;> simp [replaces]
  · simp [replaces]

/-- What happened since a call opened the file. -/
def sinceOpened (i : ℕ) (h : List WriterStep) : List WriterStep :=
  h.dropWhile fun o => !(o.writer == i && opens o.event)

/-- A call does not replace the file if another one did since it opened it. -/
def Undisturbed (h : List WriterStep) (i : ℕ) (e : SettingsEvent) : Prop :=
  replaces e = true → ∀ o ∈ sinceOpened i h, replaces o.event = false

instance (h : List WriterStep) (i : ℕ) (e : SettingsEvent) : Decidable (Undisturbed h i e) :=
  inferInstanceAs (Decidable (_ → _))

section System

variable (sha256 : ByteArray → String) (path : SettingsPath)

/-- The name of the backup of a call. -/
def Writer.backupName (w : Writer) : Option String :=
  (clockOf w.trace).map fun timestamp =>
    path.name ++ ".backup-" ++ timestamp ++ "-" ++ (w.expectedVersion.take 12).toString

/-- A call that starts. -/
def SettingsSystem.begin (S : SettingsSystem) (expectedVersion : String) (content : Str) :
    SettingsSystem :=
  { S with
    writers := S.writers ++
      [⟨expectedVersion, content, write sha256 path expectedVersion content (), []⟩] }

/-- A call that took a step. -/
def SettingsSystem.after (S : SettingsSystem) (i : ℕ) (w : Writer) (e : SettingsEvent)
    (file : SettingsFile) (rest : WriteCall) : SettingsSystem where
  file
  backups := if makesBackup e then S.backups ++ (w.backupName path).toList else S.backups
  writers := S.writers.set i { w with rest, trace := w.trace ++ [e] }

/-- The runs of the calls from a file and its backups, whose steps are all allowed.  A backup
is made only under a name that none has. -/
inductive WriterRun (allowed : List WriterStep → ℕ → SettingsEvent → Prop) (file : SettingsFile)
    (backups : List String) : List WriterStep → SettingsSystem → Prop
  | start : WriterRun allowed file backups [] ⟨file, backups, []⟩
  | call {h : List WriterStep} {S : SettingsSystem} (expectedVersion : String) (content : Str) :
      WriterRun allowed file backups h S →
      WriterRun allowed file backups h (S.begin sha256 path expectedVersion content)
  | step {h : List WriterStep} {S : SettingsSystem} {i : ℕ} {w : Writer} {e : SettingsEvent}
      {file' : SettingsFile} {rest : WriteCall} : WriterRun allowed file backups h S →
      S.writers[i]? = some w → Prog.Step S.file w.rest e file' rest →
      (makesBackup e = true → ∀ name, w.backupName path = some name → name ∉ S.backups) →
      allowed h i e →
      WriterRun allowed file backups (h ++ [⟨i, e, S.file⟩]) (S.after path i w e file' rest)

variable {sha256 path}

/-- What holds of the calls. -/
structure WriterInv (sha256 : ByteArray → String) (h : List WriterStep) (S : SettingsSystem) :
    Prop where
  /-- A call that has not opened the file is checked, whatever the file is by then. -/
  closed : ∀ (i : ℕ) (w : Writer), S.writers[i]? = some w → .tx .opened ∉ w.trace → ∀ s,
    w.rest.Safe Eq (Checked sha256 w.expectedVersion) (fun _ _ _ => True) s w.trace
  /-- One that has is checked with the file as it is, unless that was replaced. -/
  opened : ∀ (i : ℕ) (w : Writer), S.writers[i]? = some w → .tx .opened ∈ w.trace →
    (∀ o ∈ sinceOpened i h, replaces o.event = false) →
    w.rest.Safe Eq (Checked sha256 w.expectedVersion) (fun _ _ _ => True) S.file w.trace
  keeps : ∀ (i : ℕ) (w : Writer), S.writers[i]? = some w →
    w.rest.All (fun s e s' => e ≠ .tx .replaced → s' = s) fun _ => True
  passes : ∀ (i : ℕ) (w : Writer), S.writers[i]? = some w → .tx .replaced ∈ w.trace ∨
    w.rest.Passes (fun _ => True) (fun _ e => e = .tx .replaced)
      fun r => (∀ name, r.1 = .ok name → nothing name) ∧ ∀ e, r.1 = .error e → anything e
  logged : ∀ (i : ℕ) (w : Writer), S.writers[i]? = some w → ∀ e ∈ w.trace, ∃ before, ⟨i, e, before⟩ ∈ h
  writer : ∀ o ∈ h, ∃ w : Writer, S.writers[o.writer]? = some w
  replaced : ∀ (i : ℕ) (w : Writer), S.writers[i]? = some w → ∀ before, ⟨i, .tx .replaced, before⟩ ∈ h →
    ∃ bytes, before = some bytes ∧ sha256 bytes = w.expectedVersion

/-- A call that opened the file has done something since. -/
theorem sinceOpened_ne_nil {i : ℕ} {h : List WriterStep} {before : SettingsFile}
    (hmem : ⟨i, .tx .opened, before⟩ ∈ h) : sinceOpened i h ≠ [] := by
  intro hnil
  have hall := List.dropWhile_eq_nil_iff.mp hnil _ hmem
  simp [opens] at hall

/-- Once a call has opened the file, every step comes after. -/
theorem sinceOpened_append {i : ℕ} {h : List WriterStep} {before : SettingsFile}
    (hmem : ⟨i, .tx .opened, before⟩ ∈ h) (o : WriterStep) :
    sinceOpened i (h ++ [o]) = sinceOpened i h ++ [o] := by
  have hne := sinceOpened_ne_nil hmem
  rw [sinceOpened] at hne ⊢
  rw [List.dropWhile_append, if_neg (by simpa using hne), sinceOpened]

variable {file : SettingsFile} {backups : List String} {h : List WriterStep} {S : SettingsSystem}

/-- The calls once one has started: those that were there, and the new one. -/
theorem SettingsSystem.begin_cases {expectedVersion : String} {content : Str} {i : ℕ} {w : Writer}
    (hw : (S.begin sha256 path expectedVersion content).writers[i]? = some w) :
    S.writers[i]? = some w ∨ i = S.writers.length ∧
      w = ⟨expectedVersion, content, write sha256 path expectedVersion content (), []⟩ := by
  rw [SettingsSystem.begin, List.getElem?_append] at hw
  split_ifs at hw with hlt
  · exact .inl hw
  · rw [List.getElem?_singleton] at hw
    split_ifs at hw with hzero
    exact .inr ⟨by omega, (Option.some.inj hw).symm⟩

/-- A call that starts keeps the invariant. -/
theorem WriterInv.begin (hI : WriterInv sha256 h S) (expectedVersion : String) (content : Str) :
    WriterInv sha256 h (S.begin sha256 path expectedVersion content) where
  closed i w hw := by
    rcases S.begin_cases hw with hold | ⟨-, rfl⟩
    · exact hI.closed i w hold
    · exact fun _ s => (safe_of_wp (wp_write s)).mono fun _ _ _ _ => trivial
  opened i w hw := by
    rcases S.begin_cases hw with hold | ⟨-, rfl⟩
    · exact hI.opened i w hold
    · exact fun hmem => absurd hmem (by simp)
  keeps i w hw := by
    rcases S.begin_cases hw with hold | ⟨-, rfl⟩
    · exact hI.keeps i w hold
    · exact (keeps_write.all ()).mono (fun _ _ _ => id) fun _ _ => trivial
  passes i w hw := by
    rcases S.begin_cases hw with hold | ⟨-, rfl⟩
    · exact hI.passes i w hold
    · exact .inr (passes_write.path ())
  logged i w hw := by
    rcases S.begin_cases hw with hold | ⟨-, rfl⟩
    · exact hI.logged i w hold
    · exact fun e he => absurd he (by simp)
  writer o ho := by
    obtain ⟨w, hw⟩ := hI.writer o ho
    obtain ⟨hlt, -⟩ := List.getElem?_eq_some_iff.mp hw
    refine ⟨w, ?_⟩
    rw [SettingsSystem.begin, List.getElem?_append_left hlt, hw]
  replaced i w hw before hmem := by
    rcases S.begin_cases hw with hold | ⟨rfl, -⟩
    · exact hI.replaced i w hold before hmem
    · obtain ⟨w', hw'⟩ := hI.writer _ hmem
      obtain ⟨hlt, -⟩ := List.getElem?_eq_some_iff.mp hw'
      exact absurd hlt (Nat.lt_irrefl _)

section Step

variable {i j : ℕ} {w w' : Writer} {e : SettingsEvent} {rest : WriteCall}

/-- The calls once one took a step: that one, and the others. -/
theorem SettingsSystem.after_cases
    (hw' : (S.after path i w e file rest).writers[j]? = some w') :
    (j = i ∧ w' = { w with rest, trace := w.trace ++ [e] }) ∨ (j ≠ i ∧ S.writers[j]? = some w') := by
  rw [SettingsSystem.after, List.getElem?_set] at hw'
  split_ifs at hw' with hij
  · exact .inl ⟨hij.symm, (Option.some.inj hw').symm⟩
  · exact .inr ⟨fun hji => hij hji.symm, hw'⟩

/-- A call is checked where it takes a step, if nothing replaced the file since it opened it. -/
theorem WriterInv.checked (hI : WriterInv sha256 h S) (hw : S.writers[i]? = some w)
    (hstep : Prog.Step S.file w.rest e file rest)
    (hundisturbed : .tx .opened ∈ w.trace → ∀ o ∈ sinceOpened i h, replaces o.event = false) :
    Checked sha256 w.expectedVersion S.file w.trace e file ∧
      rest.Safe Eq (Checked sha256 w.expectedVersion) (fun _ _ _ => True) file
        (w.trace ++ [e]) := by
  have hsafe : w.rest.Safe Eq (Checked sha256 w.expectedVersion) (fun _ _ _ => True) S.file
      w.trace := by
    by_cases hopened : .tx .opened ∈ w.trace
    · exact hI.opened i w hw hopened (hundisturbed hopened)
    · exact hI.closed i w hw hopened S.file
  exact hsafe.step (fun _ => rfl) hstep

/-- A call that has not opened the file yet: its first change of the file would be to open it. -/
theorem WriterInv.closed_after (hI : WriterInv sha256 h S) (hw : S.writers[i]? = some w)
    (hstep : Prog.Step S.file w.rest e file rest) (hclosed : .tx .opened ∉ w.trace ++ [e])
    (s : SettingsFile) : rest.Safe Eq (Checked sha256 w.expectedVersion) (fun _ _ _ => True) s
      (w.trace ++ [e]) := by
  rw [List.mem_append, not_or] at hclosed
  have hsafe := hI.closed i w hw hclosed.1
  have hchecked := hI.checked hw hstep fun hopened => absurd hopened hclosed.1
  generalize w.rest = p at hstep hsafe
  cases hstep with
  | tx s f label k =>
    refine absurd (hchecked.1.first _ rfl fun hopened => hclosed.2 ?_) hclosed.1
    rw [hopened]
    exact List.mem_singleton_self _
  | ask s call k answer => exact (hsafe s s rfl answer).2

/-- Another call that has opened the file: the step replaced nothing, or it does not matter. -/
theorem WriterInv.opened_after (hI : WriterInv sha256 h S) (hw : S.writers[i]? = some w)
    (hstep : Prog.Step S.file w.rest e file rest) (hw' : S.writers[j]? = some w')
    (hopened : .tx .opened ∈ w'.trace)
    (hundisturbed : ∀ o ∈ sinceOpened j (h ++ [⟨i, e, S.file⟩]), replaces o.event = false) :
    w'.rest.Safe Eq (Checked sha256 w'.expectedVersion) (fun _ _ _ => True) file w'.trace := by
  obtain ⟨before, hmem⟩ := hI.logged j w' hw' _ hopened
  rw [sinceOpened_append hmem] at hundisturbed
  have hother := hundisturbed _ (List.mem_append_right _ (List.mem_singleton_self _))
  have hfile : file = S.file := ((hI.keeps i w hw).step hstep).1 fun hreplaced => by
    rw [replaces_iff.mpr hreplaced] at hother
    cases hother
  exact hfile ▸ hI.opened j w' hw' hopened fun o ho => hundisturbed o (List.mem_append_left _ ho)

/-- The call that takes the step has replaced the file, or will. -/
theorem WriterInv.passes_after (hI : WriterInv sha256 h S) (hw : S.writers[i]? = some w)
    (hstep : Prog.Step S.file w.rest e file rest) : .tx .replaced ∈ w.trace ++ [e] ∨
      rest.Passes (fun _ => True) (fun _ e => e = .tx .replaced)
        fun r => (∀ name, r.1 = .ok name → nothing name) ∧ ∀ e, r.1 = .error e → anything e := by
  rcases hI.passes i w hw with hmem | hpasses
  · exact .inl (List.mem_append_left _ hmem)
  · generalize w.rest = p at hstep hpasses
    cases hstep with
    | tx s f label k =>
      refine (hpasses S.file trivial).imp (fun hreplaced => ?_) id
      rw [hreplaced]
      exact List.mem_append_right _ (List.mem_singleton_self _)
    | ask s call k answer =>
      exact .inr ((hpasses answer).resolve_left fun hall => nomatch hall S.file trivial)

/-- **A step keeps the invariant**, if it is allowed. -/
theorem WriterInv.step (hI : WriterInv sha256 h S) (hw : S.writers[i]? = some w)
    (hstep : Prog.Step S.file w.rest e file rest) (hallowed : Undisturbed h i e) :
    WriterInv sha256 (h ++ [⟨i, e, S.file⟩]) (S.after path i w e file rest) where
  closed j w' hw' hclosed s := by
    rcases S.after_cases hw' with ⟨rfl, rfl⟩ | ⟨-, hold⟩
    · exact hI.closed_after hw hstep hclosed s
    · exact hI.closed j w' hold hclosed s
  opened j w' hw' hopened hundisturbed := by
    rcases S.after_cases hw' with ⟨rfl, rfl⟩ | ⟨-, hold⟩
    · refine (hI.checked hw hstep fun hbefore o ho => hundisturbed o ?_).2
      obtain ⟨before, hmem⟩ := hI.logged j w hw _ hbefore
      rw [sinceOpened_append hmem]
      exact List.mem_append_left _ ho
    · exact hI.opened_after hw hstep hold hopened hundisturbed
  keeps j w' hw' := by
    rcases S.after_cases hw' with ⟨rfl, rfl⟩ | ⟨-, hold⟩
    · exact ((hI.keeps j w hw).step hstep).2
    · exact hI.keeps j w' hold
  passes j w' hw' := by
    rcases S.after_cases hw' with ⟨rfl, rfl⟩ | ⟨-, hold⟩
    · exact hI.passes_after hw hstep
    · exact hI.passes j w' hold
  logged j w' hw' e' he' := by
    have hbefore {w : Writer} (hw : S.writers[j]? = some w) (he' : e' ∈ w.trace) :
        ∃ before, ⟨j, e', before⟩ ∈ h ++ [⟨i, e, S.file⟩] := by
      obtain ⟨before, hmem⟩ := hI.logged j w hw e' he'
      exact ⟨before, List.mem_append_left _ hmem⟩
    rcases S.after_cases hw' with ⟨rfl, rfl⟩ | ⟨-, hold⟩
    · rcases List.mem_append.mp he' with he' | he'
      · exact hbefore hw he'
      · obtain rfl := List.mem_singleton.mp he'
        exact ⟨S.file, List.mem_append_right _ (List.mem_singleton_self _)⟩
    · exact hbefore hold he'
  writer o ho := by
    have hsame : (S.after path i w e file rest).writers.length = S.writers.length :=
      List.length_set
    have hindex : o.writer < S.writers.length := by
      rcases List.mem_append.mp ho with ho | ho
      · obtain ⟨w', hw'⟩ := hI.writer o ho
        exact (List.getElem?_eq_some_iff.mp hw').1
      · obtain rfl := List.mem_singleton.mp ho
        exact (List.getElem?_eq_some_iff.mp hw).1
    exact ⟨_, List.getElem?_eq_getElem (hsame ▸ hindex)⟩
  replaced j w' hw' before hmem := by
    rcases List.mem_append.mp hmem with hold | hnew
    · rcases S.after_cases hw' with ⟨rfl, rfl⟩ | ⟨-, hw'⟩
      · exact hI.replaced j w hw before hold
      · exact hI.replaced j w' hw' before hold
    · obtain ⟨rfl, rfl, rfl⟩ : j = i ∧ .tx .replaced = e ∧ before = S.file := by
        simpa using hnew
      rcases S.after_cases hw' with ⟨-, rfl⟩ | ⟨hne, -⟩
      · exact (hI.checked hw hstep fun _ => hallowed rfl).1.replaced rfl
      · exact absurd rfl hne

end Step

/-- The invariant holds of every run whose steps are all allowed. -/
theorem WriterRun.inv (hrun : WriterRun sha256 path Undisturbed file backups h S) :
    WriterInv sha256 h S := by
  induction hrun with
  | start =>
    refine ⟨?_, ?_, ?_, ?_, ?_, nofun, ?_⟩
    all_goals
      intro i w hw
      cases hw
  | call expectedVersion content _ ih => exact ih.begin expectedVersion content
  | step _ hw hstep _ hallowed ih => exact ih.step hw hstep hallowed

/-- **No update of the settings file is lost** in a run where no call replaces the file that
another one replaced since it opened it: a call that returned has replaced a file that had the
version it was given, and so has every call that replaced the file at all. -/
theorem WriterRun.noLostUpdate (hrun : WriterRun sha256 path Undisturbed file backups h S) {i : ℕ}
    {w : Writer} (hw : S.writers[i]? = some w) :
    (∀ name, w.rest = .ret (.ok name, ()) → ∃ bytes, ⟨i, .tx .replaced, some bytes⟩ ∈ h) ∧
      ∀ before, ⟨i, .tx .replaced, before⟩ ∈ h →
        ∃ bytes, before = some bytes ∧ sha256 bytes = w.expectedVersion := by
  have hI := hrun.inv
  refine ⟨fun name hret => ?_, hI.replaced i w hw⟩
  have hreplaced : .tx .replaced ∈ w.trace := (hI.passes i w hw).resolve_right fun hpasses => by
    rw [hret] at hpasses
    exact hpasses.1 name rfl
  obtain ⟨before, hmem⟩ := hI.logged i w hw _ hreplaced
  obtain ⟨bytes, rfl, -⟩ := hI.replaced i w hw before hmem
  exact ⟨bytes, hmem⟩

end System

section Samples

/-- The answers of a system where nothing fails, at some time. -/
def answerAt (time : String) : (call : SettingsCall) → Option call.Reply
  | .clock => some time
  | call => sampleAnswer none call

/-- One step of a call, if it can be taken. -/
def SettingsSystem.perform (S : SettingsSystem) (i : ℕ) (time : String) :
    Option (WriterStep × SettingsSystem) :=
  match S.writers[i]? with
  | none => none
  | some w =>
      match Prog.next (answerAt time) S.file w.rest with
      | none => none
      | some (e, file, rest) =>
          if makesBackup e = true ∧ (w.backupName samplePath).any (· ∈ S.backups) then none
          else some (⟨i, e, S.file⟩, S.after samplePath i w e file rest)

/-- The steps of some calls, each at a time, if they can all be taken. -/
def SettingsSystem.play (allowed : List WriterStep → ℕ → SettingsEvent → Prop)
    [∀ h i e, Decidable (allowed h i e)] :
    List (ℕ × String) → List WriterStep → SettingsSystem → Option (List WriterStep × SettingsSystem)
  | [], h, S => some (h, S)
  | (i, time) :: turns, h, S =>
      match S.perform i time with
      | none => none
      | some (o, S') => if allowed h o.writer o.event then S'.play allowed turns (h ++ [o]) else none

/-- What is played is a run. -/
theorem SettingsSystem.play_run {allowed : List WriterStep → ℕ → SettingsEvent → Prop}
    [∀ h i e, Decidable (allowed h i e)] {sha256 : ByteArray → String} {file : SettingsFile}
    {backups : List String} {turns : List (ℕ × String)} {h h' : List WriterStep}
    {S S' : SettingsSystem} (hplay : S.play allowed turns h = some (h', S'))
    (hrun : WriterRun sha256 samplePath allowed file backups h S) :
    WriterRun sha256 samplePath allowed file backups h' S' := by
  induction turns generalizing h S with
  | nil =>
    obtain ⟨rfl, rfl⟩ : h = h' ∧ S = S' := by simpa [SettingsSystem.play] using hplay
    exact hrun
  | cons turn turns ih =>
    obtain ⟨i, time⟩ := turn
    simp only [SettingsSystem.play] at hplay
    cases hperform : S.perform i time with
    | none =>
      rw [hperform] at hplay
      cases hplay
    | some r =>
      obtain ⟨o, S₁⟩ := r
      rw [hperform] at hplay
      simp only at hplay
      split_ifs at hplay with hallowed
      refine ih hplay ?_
      rw [SettingsSystem.perform] at hperform
      cases hw : S.writers[i]? with
      | none =>
        rw [hw] at hperform
        cases hperform
      | some w =>
        rw [hw] at hperform
        simp only at hperform
        cases hnext : Prog.next (answerAt time) S.file w.rest with
        | none =>
          rw [hnext] at hperform
          cases hperform
        | some step =>
          obtain ⟨e, file', rest⟩ := step
          rw [hnext] at hperform
          simp only at hperform
          split_ifs at hperform with hexclusive
          obtain ⟨rfl, rfl⟩ := Prod.mk.inj (Option.some.inj hperform)
          refine hrun.step hw (Prog.next_step hnext) (fun hmakes name hname hmem => ?_) hallowed
          exact hexclusive ⟨hmakes, by simp [hname, hmem]⟩

/-- Two calls from a file with blanks in a name: one takes the blanks out, the other names the
server anew. -/
def twoWriters (firstVersion secondVersion : String) : SettingsSystem :=
  ((⟨blankFile, [], []⟩ : SettingsSystem).begin sampleVersions samplePath firstVersion
    (str "[/Script/Pal.PalGameWorldSettings]\nOptionSettings=(ServerName=\"hello\")\n")).begin
    sampleVersions samplePath secondVersion
    (str "[/Script/Pal.PalGameWorldSettings]\nOptionSettings=(ServerName=\"other\")\n")

/-- Two calls that have started are a run. -/
theorem twoWriters_run (allowed : List WriterStep → ℕ → SettingsEvent → Prop) (v₁ v₂ : String) :
    WriterRun sampleVersions samplePath allowed blankFile [] [] (twoWriters v₁ v₂) :=
  (WriterRun.start.call _ _).call _ _

/-- Whether a call has returned. -/
def Writer.returned (w : Writer) : Bool :=
  match w.rest with
  | .ret (.ok _, _) => true
  | _ => false

/-- A call that returned has a result. -/
theorem Writer.returned_iff {w : Writer} (h : w.returned = true) :
    ∃ name, w.rest = .ret (.ok name, ()) := by
  rw [Writer.returned] at h
  split at h
  · rename_i name _ hrest
    exact ⟨name, hrest⟩
  · cases h

/-- One call after the other. -/
def inTurn : List (ℕ × String) :=
  List.replicate 34 (0, "20260101T000000000000Z") ++ List.replicate 34 (1, "20260101T000000000001Z")

/-- The second call goes all the way between the first one's comparison and its replacement. -/
def overtaken : List (ℕ × String) :=
  List.replicate 28 (0, "20260101T000000000000Z") ++
    (List.replicate 34 (1, "20260101T000000000001Z") ++
      List.replicate 6 (0, "20260101T000000000002Z"))

/-- What a call was given and whether it has returned. -/
def SettingsSystem.ended (S : SettingsSystem) : List (String × Bool) :=
  S.writers.map fun w => (w.expectedVersion, w.returned)

/-- The two calls in turn: both return. -/
theorem twoWriters_inTurn : ((twoWriters blankVersion plainVersion).play Undisturbed inTurn []).any
    (fun r => r.2.ended = [(blankVersion, true), (plainVersion, true)]) = true := by
  decide +kernel

/-- A call that ended with a version is among the calls. -/
theorem SettingsSystem.ended_getElem? {S : SettingsSystem} {l : List (String × Bool)}
    (hended : S.ended = l) {i : ℕ} {version : String} (hi : l[i]? = some (version, true)) :
    ∃ w name, S.writers[i]? = some w ∧ w.expectedVersion = version ∧
      w.rest = .ret (.ok name, ()) := by
  rw [← hended, SettingsSystem.ended, List.getElem?_map, Option.map_eq_some_iff] at hi
  obtain ⟨w, hw, hpair⟩ := hi
  obtain ⟨rfl, hreturned⟩ := Prod.mk.inj hpair
  obtain ⟨name, hrest⟩ := Writer.returned_iff hreturned
  exact ⟨w, name, hw, rfl, hrest⟩

/-- The second call opens the file after the first one has replaced it, and both return. -/
theorem WriterRun.noLostUpdate_inTurn :
    ∃ h S, WriterRun sampleVersions samplePath Undisturbed blankFile [] h S ∧
      S.ended = [(blankVersion, true), (plainVersion, true)] ∧
      (∃ bytes, ⟨0, .tx .replaced, some bytes⟩ ∈ h ∧ sampleVersions bytes = blankVersion) ∧
      ∃ bytes, ⟨1, .tx .replaced, some bytes⟩ ∈ h ∧ sampleVersions bytes = plainVersion := by
  obtain ⟨⟨h, S⟩, hplay, hended⟩ := (Option.any_eq_true _ _).mp twoWriters_inTurn
  have hended : S.ended = [(blankVersion, true), (plainVersion, true)] := of_decide_eq_true hended
  have hrun := SettingsSystem.play_run hplay (twoWriters_run Undisturbed _ _)
  have hsettled {i : ℕ} {version : String}
      (hi : [(blankVersion, true), (plainVersion, true)][i]? = some (version, true)) :
      ∃ bytes, ⟨i, .tx .replaced, some bytes⟩ ∈ h ∧ sampleVersions bytes = version := by
    obtain ⟨w, name, hw, rfl, hret⟩ := SettingsSystem.ended_getElem? hended hi
    obtain ⟨hreturns, hreplaces⟩ := WriterRun.noLostUpdate hrun hw
    obtain ⟨bytes, hmem⟩ := hreturns name hret
    obtain ⟨_, hbytes, hversion⟩ := hreplaces _ hmem
    exact ⟨bytes, hmem, Option.some.inj hbytes ▸ hversion⟩
  exact ⟨h, S, hrun, hended, hsettled rfl, hsettled rfl⟩

/-- The two calls, one between the other's comparison and replacement: both return. -/
theorem twoWriters_overtaken :
    ((twoWriters blankVersion blankVersion).play (fun _ _ _ => True) overtaken []).any (fun r =>
      r.2.ended = [(blankVersion, true), (blankVersion, true)] ∧
        r.1.all fun o => !(o.writer == 0 && replaces o.event &&
          o.before.any fun bytes => sampleVersions bytes == blankVersion)) = true := by
  decide +kernel

/-- Both calls return, and the first one has replaced what the second one wrote. -/
theorem WriterRun.lostUpdate :
    ∃ h S, WriterRun sampleVersions samplePath (fun _ _ _ => True) blankFile [] h S ∧
      S.ended = [(blankVersion, true), (blankVersion, true)] ∧
      ¬ ∃ bytes, ⟨0, .tx .replaced, some bytes⟩ ∈ h ∧ sampleVersions bytes = blankVersion := by
  obtain ⟨⟨h, S⟩, hplay, hends⟩ := (Option.any_eq_true _ _).mp twoWriters_overtaken
  obtain ⟨hended, hlost⟩ := of_decide_eq_true hends
  refine ⟨h, S, SettingsSystem.play_run hplay (twoWriters_run _ _ _), hended, ?_⟩
  rintro ⟨bytes, hmem, hversion⟩
  have ho := List.all_eq_true.mp hlost _ hmem
  simp [replaces, hversion] at ho

end Samples

end PalworldManager
