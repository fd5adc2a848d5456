/-
# The course of a call

What a call of the service has done so far is summed up by its `Course`: whether a call
of the operating system failed, whether the file was replaced, and so on.  `Concludes` is the
weakest precondition of a method that goes by the file and the course, among parties that
leave the file alone; the storage has one lemma for each of its methods.
-/

import PalworldManager.PalworldSettings.Service

namespace PalworldManager

open Effects Text
open Effects.Exec hiding bind ask

/-- An event of the storage or of the service. -/
abbrev SettingsEvent := Event SettingsLabel SettingsCall SettingsCall.Reply

/-- An answer that makes the storage raise. -/
def SettingsCall.fails : (call : SettingsCall) → call.Reply → Bool
  | .file _, answer => Option.isSome answer
  | .isLink _, answer =>
      match (answer : Except OsError Bool) with
      | .ok found => found
      | .error error => error ≠ .fileNotFound
  | .fstat, answer =>
      match (answer : Except OsError FileStat) with
      | .ok fileStat => !fileStat.isRegular
      | .error _ => true
  | .exists, answer =>
      match (answer : Except OsError Bool) with
      | .ok _ => false
      | .error _ => true
  | .clock, _ => false

/-- A call that makes a file, or writes one. -/
def SettingsCall.writes : SettingsCall → Bool
  | .file .openExclusive | .file .mkstemp | .file .write => true
  | _ => false

/-- What a call has done. -/
structure Course where
  /-- A call of the operating system failed. -/
  failed : Bool
  /-- A file was made, or written. -/
  wrote : Bool
  /-- The file was replaced. -/
  replaced : Bool
  /-- A call of the operating system failed after the file was replaced. -/
  late : Bool
  /-- A text was to be encoded that has a lone surrogate. -/
  unencodable : Bool
  /-- The audit events. -/
  audits : List SettingsAudit
  deriving DecidableEq

/-- A call that has done nothing. -/
def Course.start : Course := ⟨false, false, false, false, false, []⟩

/-- After a call of the operating system that failed. -/
def Course.fail (c : Course) : Course := { c with failed := true, late := c.late || c.replaced }

/-- After a call that makes a file, or writes one. -/
def Course.touch (c : Course) : Course := { c with wrote := true }

/-- After a call of the operating system. -/
def Course.asked (c : Course) (call : SettingsCall) : Course :=
  bif call.writes then c.touch else c

/-- After a step. -/
def Course.next (c : Course) : SettingsEvent → Course
  | .tx .opened => c
  | .tx (.encode content) => { c with unencodable := c.unencodable || (encodeUtf8 content).isNone }
  | .tx .replaced => { c with replaced := true }
  | .tx (.audit event) => { c with audits := c.audits ++ [event] }
  | .ask call answer => if call.fails answer then (c.asked call).fail else c.asked call

/-- What a trace has done. -/
def course (tr : List SettingsEvent) : Course := tr.foldl Course.next .start

/-- One more step of the course. -/
theorem course_append (tr : List SettingsEvent) (e : SettingsEvent) :
    course (tr ++ [e]) = (course tr).next e := by
  rw [course, course, List.foldl_append]
  rfl

/-- To fail twice is to fail. -/
theorem fail_fail (c : Course) : c.fail.fail = c.fail := by
  cases c with
  | mk failed wrote replaced late unencodable audits => cases late <;> simp [Course.fail]

/-- A method that ends as `Q` and `E` say of the file and the course. -/
def Concludes {α : Type} (x : SettingsM α) (Q : α → SettingsFile → Course → Prop)
    (E : SettingsError → SettingsFile → Course → Prop) (s : SettingsFile) (c : Course) : Prop :=
  ∀ tr, course tr = c →
    wp Eq (fun _ _ _ _ => True) x (fun a _ s' tr' => Q a s' (course tr'))
      (fun e _ s' tr' => E e s' (course tr')) () s tr

section Rules

variable {α β : Type} {Q Q' : α → SettingsFile → Course → Prop}
  {E E' : SettingsError → SettingsFile → Course → Prop} {s : SettingsFile} {c : Course}

/-- What a method concludes with may be said more weakly. -/
theorem Concludes.mono {x : SettingsM α} (h : Concludes x Q E s c) (hQ : ∀ a s c, Q a s c → Q' a s c)
    (hE : ∀ e s c, E e s c → E' e s c) : Concludes x Q' E' s c := fun tr htr =>
  wp_mono (h tr htr) (fun _ _ _ _ => hQ _ _ _) fun _ _ _ _ => hE _ _ _

/-- A value concludes. -/
theorem concludes_pure {a : α} (h : Q a s c) : Concludes (pure a) Q E s c := by
  rintro tr rfl
  exact (wp_pure a).mpr h

/-- An exception concludes. -/
theorem concludes_raise {e : SettingsError} (h : E e s c) : Concludes (raise e : SettingsM α) Q E s c := by
  rintro tr rfl
  exact (wp_raise e).mpr h

/-- A guard concludes, or lets through. -/
theorem concludes_raiseIf {p : Prop} [Decidable p] {e : SettingsError}
    {Q : Unit → SettingsFile → Course → Prop} (hE : p → E e s c) (hQ : ¬p → Q () s c) :
    Concludes (raiseIf p e) Q E s c := by
  rintro tr rfl
  exact (wp_raiseIf p e).mpr ⟨hE, hQ⟩

/-- A computation concludes with its value or its exception. -/
theorem concludes_ofExcept {r : Except SettingsError α} (hQ : ∀ a, r = .ok a → Q a s c)
    (hE : ∀ e, r = .error e → E e s c) : Concludes (ofExcept r) Q E s c := by
  rintro tr rfl
  exact (wp_ofExcept r).mpr ⟨hQ, hE⟩

/-- **Two statements**, one after the other. -/
theorem concludes_bind {x : SettingsM α} {f : α → SettingsM β}
    {Q : β → SettingsFile → Course → Prop} (h : Concludes x (fun a => Concludes (f a) Q E) E s c) :
    Concludes (x >>= f) Q E s c := fun tr htr =>
  (wp_bind x f).mpr (wp_mono (h tr htr) (fun _ _ _ tr' h' => h' tr' rfl) fun _ _ _ _ => id)

/-- **A body with handlers**: what it raises is handled. -/
theorem concludes_tryCatch {x : SettingsM α} {h : SettingsError → SettingsM α}
    (hx : Concludes x Q (fun e => Concludes (h e) Q E) s c) :
    Concludes (tryCatch x h) Q E s c := fun tr htr =>
  (wp_tryCatch x h).mpr
    (wp_mono (hx tr htr) (fun _ _ _ _ => id) fun _ _ _ tr' h' => h' tr' rfl)

/-- **A body with a `finally`**, however it ends. -/
theorem concludes_ensuring {x : SettingsM α} {y : SettingsM Unit}
    (h : Concludes x (fun a => Concludes y (fun _ => Q a) E) (fun e => Concludes y (fun _ => E e) E) s c) :
    Concludes (ensuring x y) Q E s c := fun tr htr =>
  (wp_ensuring x y).mpr
    (wp_mono (h tr htr) (fun _ _ _ tr' h' => h' tr' rfl) fun _ _ _ tr' h' => h' tr' rfl)

/-- A question: what it answers may be a failure. -/
theorem concludes_ask {call : SettingsCall} {Q : call.Reply → SettingsFile → Course → Prop}
    (h : ∀ r, Q r s (if call.fails r then (c.asked call).fail else c.asked call)) :
    Concludes (settingsAsk call) Q E s c := by
  rintro tr rfl
  refine (wp_ask call).mpr fun s₁ hs r => ⟨trivial, ?_⟩
  subst hs
  rw [course_append]
  exact h r

/-- A transaction changes the file and the course. -/
theorem concludes_tx {f : SettingsFile → α × SettingsFile} {label : α → SettingsLabel}
    (h : Q (f s).1 (f s).2 (c.next (.tx (label (f s).1)))) : Concludes (tx f label) Q E s c := by
  rintro tr rfl
  refine (wp_tx f label).mpr fun s₁ hs => ⟨trivial, ?_⟩
  subst hs
  rw [course_append]
  exact h

end Rules

section Calls

variable {α : Type} {E : SettingsError → SettingsFile → Course → Prop} {s : SettingsFile}
  {c : Course}

/-- What a failed call raises. -/
def IsFileError (e : SettingsError) : Prop := (∃ o, e = .os o) ∨ e = .storage .invalidFile

/-- A file operation is done, or fails. -/
theorem concludes_fileCall {call : FileCall} {Q : Unit → SettingsFile → Course → Prop}
    (hQ : Q () s (c.asked (.file call)))
    (hE : ∀ e, IsFileError e → E e s (c.asked (.file call)).fail) : Concludes (fileCall call) Q E s c := by
  refine concludes_bind (concludes_ask fun answer => ?_)
  cases answer with
  | none => exact concludes_pure hQ
  | some error => exact concludes_raise (hE _ (.inl ⟨error, rfl⟩))

/-- The open file is looked at, or that fails. -/
theorem concludes_fstat {Q : FileStat → SettingsFile → Course → Prop}
    (hQ : ∀ fileStat, Q fileStat s (if fileStat.isRegular then c else c.fail))
    (hE : ∀ e, IsFileError e → E e s c.fail) : Concludes fstat Q E s c := by
  refine concludes_bind (concludes_ask fun answer => ?_)
  cases answer with
  | error error => exact concludes_raise (hE _ (.inl ⟨error, rfl⟩))
  | ok fileStat =>
    refine concludes_pure ?_
    have hstat := hQ fileStat
    cases hregular : fileStat.isRegular with
    | true =>
      simp only [SettingsCall.fails, hregular] at hstat ⊢
      exact hstat
    | false =>
      simp only [SettingsCall.fails, hregular] at hstat ⊢
      exact hstat

/-- The temporary file is looked for, or that fails. -/
theorem concludes_temporaryExists {Q : Bool → SettingsFile → Course → Prop} (hQ : ∀ found, Q found s c)
    (hE : ∀ e, IsFileError e → E e s c.fail) : Concludes temporaryExists Q E s c := by
  refine concludes_bind (concludes_ask fun answer => ?_)
  cases answer with
  | error error => exact concludes_raise (hE _ (.inl ⟨error, rfl⟩))
  | ok found => exact concludes_pure (hQ found)

/-- The clock shows some time. -/
theorem concludes_clock {Q : String → SettingsFile → Course → Prop} (hQ : ∀ now, Q now s c) :
    Concludes clock Q E s c := concludes_ask hQ

/-- A path is checked for a link, or that fails. -/
theorem concludes_rejectSymlink {parts : List String} {Q : Unit → SettingsFile → Course → Prop}
    (hQ : Q () s c) (hE : ∀ e, IsFileError e → E e s c.fail) :
    Concludes (rejectSymlink parts) Q E s c := by
  refine concludes_bind (concludes_ask fun answer => ?_)
  cases answer with
  | ok isLink =>
    cases isLink with
    | true => exact concludes_raiseIf (fun _ => hE _ (.inr rfl)) fun h => absurd rfl h
    | false => exact concludes_raiseIf (fun h => by cases h) fun _ => hQ
  | error error =>
    cases error with
    | fileNotFound => exact concludes_pure hQ
    | permission => exact concludes_raise (hE _ (.inl ⟨_, rfl⟩))
    | other => exact concludes_raise (hE _ (.inl ⟨_, rfl⟩))

/-- So are all parts of a path. -/
theorem concludes_rejectSymlinkComponents {current parts : List String}
    {Q : Unit → SettingsFile → Course → Prop} (hQ : Q () s c)
    (hE : ∀ e, IsFileError e → E e s c.fail) :
    Concludes (rejectSymlinkComponents current parts) Q E s c := by
  induction parts generalizing current with
  | nil => exact concludes_pure hQ
  | cons part parts ih => exact concludes_bind (concludes_rejectSymlink ih hE)

/-- The file is closed at the end, whatever the body did. -/
theorem concludes_withFile {body : SettingsM α} {Q : α → SettingsFile → Course → Prop}
    (h : Concludes body (fun a s' c' => Q a s' c' ∧ ∀ e, IsFileError e → E e s' c'.fail)
      (fun e s' c' => E e s' c' ∧ ∀ e, IsFileError e → E e s' c'.fail) s c)
    (hE : ∀ e, IsFileError e → E e s c.fail) : Concludes (withFile body) Q E s c := by
  refine concludes_bind (concludes_fileCall (concludes_ensuring (h.mono ?_ ?_)) hE)
  · exact fun a s' c' h' => concludes_fileCall h'.1 h'.2
  · exact fun e s' c' h' => concludes_fileCall h'.1 h'.2

end Calls

section Storage

variable {sha256 : ByteArray → String} {path : SettingsPath}
  {E : SettingsError → SettingsFile → Course → Prop} {s : SettingsFile} {c : Course}

/-- A file that can be read: it is not too long, and is UTF-8. -/
structure IsReadable (file : SettingsFile) (bytes : ByteArray) (content : Str) : Prop where
  file_eq : file = some bytes
  size_le : bytes.size ≤ maxIniBytes
  decode : decodeUtf8 bytes = some content

/-- What was decoded can be encoded. -/
theorem IsReadable.isEncodable {file : SettingsFile} {bytes : ByteArray} {content : Str}
    (h : IsReadable file bytes content) : IsEncodable content :=
  isSome_encodeUtf8.mp (Option.isSome_of_mem (encodeUtf8_of_decodeUtf8 h.decode))

/-- A file that can be read is read whole. -/
theorem extract_of_size_le {bytes : ByteArray} (h : bytes.size ≤ maxIniBytes) :
    bytes.extract 0 (maxIniBytes + 1) = bytes := by
  refine ByteArray.ext ?_
  rw [ByteArray.data_extract]
  exact Array.extract_eq_self_of_le (Nat.le_succ_of_le h)

/-- The open file is read whole, or that fails. -/
theorem concludes_readFile {bytes : ByteArray} {Q : FileStat × ByteArray → SettingsFile → Course → Prop}
    (hQ : ∀ fileStat, Q (fileStat, bytes.extract 0 (maxIniBytes + 1)) s c)
    (hE : ∀ e, IsFileError e → E e s c.fail) : Concludes (readFile bytes) Q E s c := by
  refine concludes_bind (concludes_fstat (fun fileStat => ?_) hE)
  cases hregular : fileStat.isRegular with
  | false => exact concludes_bind (concludes_raiseIf (fun _ => hE _ (.inr rfl)) fun h => absurd rfl h)
  | true =>
    refine concludes_bind (concludes_raiseIf (fun h => by cases h) fun _ => ?_)
    exact concludes_bind (concludes_fileCall (concludes_pure (hQ fileStat)) hE)

/-- What `_read_current` raises: of a failed call, or of a file that cannot be read. -/
theorem concludes_readCurrent {Q : Str × ByteArray × FileStat → SettingsFile → Course → Prop}
    (hQ : ∀ bytes content fileStat, IsReadable s bytes content →
      Q (content, bytes, fileStat) s c)
    (hfail : ∀ kind, E (.storage kind) s c.fail)
    (hunread : (∀ bytes content, ¬IsReadable s bytes content) → ∀ kind, E (.storage kind) s c) :
    Concludes (readCurrent path) Q E s c := by
  have hraise {Q : FileStat × ByteArray → SettingsFile → Course → Prop} (e : SettingsError)
      (he : IsFileError e) : Concludes (raise (readError e)) Q E s c.fail := by
    rcases he with ⟨o, rfl⟩ | rfl
    · cases o <;> exact concludes_raise (hfail _)
    · exact concludes_raise (hfail _)
  refine concludes_bind (concludes_tryCatch (concludes_bind (concludes_rejectSymlinkComponents ?_ hraise)))
  refine concludes_bind (concludes_bind (concludes_fileCall (concludes_bind (concludes_tx ?_)) hraise))
  cases s with
  | none => exact concludes_raise (concludes_raise (hunread (fun _ _ h => by cases h.file_eq) _))
  | some bytes =>
    refine concludes_pure (concludes_withFile (concludes_readFile (fun fileStat => ⟨?_, hraise⟩) ?_) hraise)
    · refine concludes_bind (concludes_raiseIf (fun hlong => ?_) fun hlong => ?_)
      · refine hunread (fun bytes' content h => ?_) _
        obtain rfl : bytes = bytes' := by simpa using h.file_eq
        rw [extract_of_size_le h.size_le] at hlong
        exact absurd h.size_le (Nat.not_le.mpr hlong)
      · have hsize : bytes.size ≤ maxIniBytes := by
          rw [ByteArray.size_extract] at hlong
          omega
        rw [extract_of_size_le hsize]
        cases hdecode : decodeUtf8 bytes with
        | none =>
          refine concludes_raise (hunread (fun bytes' content h => ?_) _)
          obtain rfl : bytes = bytes' := by simpa using h.file_eq
          cases hdecode.symm.trans h.decode
        | some content => exact concludes_pure (hQ bytes content fileStat ⟨rfl, hsize, hdecode⟩)
    · intro e he
      refine ⟨hraise e he, ?_⟩
      rw [fail_fail]
      exact hraise

/-- `read` gives the content and its version. -/
theorem concludes_read {Q : StoredSettings → SettingsFile → Course → Prop}
    (hQ : ∀ bytes content, IsReadable s bytes content → Q ⟨content, sha256 bytes⟩ s c)
    (hfail : ∀ kind, E (.storage kind) s c.fail)
    (hunread : (∀ bytes content, ¬IsReadable s bytes content) → ∀ kind, E (.storage kind) s c) :
    Concludes (read sha256 path) Q E s c :=
  concludes_bind (concludes_readCurrent (fun bytes content _ h => concludes_pure (hQ bytes content h)) hfail
    hunread)

/-- The steps that write a file, and nothing else. -/
theorem concludes_writeFile {Q : Unit → SettingsFile → Course → Prop} (hQ : Q () s c.touch)
    (hE : ∀ e, IsFileError e → E e s c.touch.fail) :
    Concludes (do
      fileCall .write
      fileCall .flush
      fileCall .fsync) Q E s c :=
  concludes_bind (concludes_fileCall (concludes_bind (concludes_fileCall (concludes_fileCall hQ hE) hE)) hE)

/-- What a failed call raises within a `with`. -/
theorem fail_withFile (hE : ∀ e, IsFileError e → E e s c.fail) (e : SettingsError)
    (he : IsFileError e) : E e s c.fail ∧ ∀ e, IsFileError e → E e s c.fail.fail := by
  rw [fail_fail]
  exact ⟨hE e he, hE⟩

/-- The backup is written, or that fails; either way it was touched. -/
theorem concludes_writeExclusive {Q : Unit → SettingsFile → Course → Prop} (hQ : Q () s c.touch)
    (hE : ∀ e, IsFileError e → E e s c.touch.fail) : Concludes writeExclusive Q E s c := by
  have hfail := fail_withFile hE
  exact concludes_bind (concludes_fileCall (concludes_withFile
    (concludes_bind (concludes_fileCall (concludes_writeFile ⟨hQ, hE⟩ hfail) hfail)) hE) hE)

/-- The file is replaced, or a call failed before or after that. -/
theorem concludes_atomicReplace {content : ByteArray} {Q : Unit → SettingsFile → Course → Prop}
    (hQ : Q () (some content) { c.touch with replaced := true })
    (hE : ∀ e, IsFileError e → E e s c.touch.fail)
    (hlate : ∀ e, IsFileError e → E e (some content) { c.touch with replaced := true }.fail) :
    Concludes (atomicReplace path content) Q E s c := by
  -- what `finally` leaves of a body that has ended, one way or the other
  have hend {s' : SettingsFile} {c' : Course} (hE' : ∀ e, IsFileError e → E e s' c'.fail)
      (e : SettingsError) (he : IsFileError e) :
      Concludes removeTemporary (fun _ => E e) E s' c'.fail := by
    have hfail : ∀ e, IsFileError e → E e s' c'.fail.fail := by
      rw [fail_fail]
      exact hE'
    refine concludes_bind (concludes_temporaryExists (fun found => ?_) hfail)
    cases found with
    | true => exact concludes_fileCall (hE' e he) hfail
    | false => exact concludes_pure (hE' e he)
  refine concludes_bind (concludes_fileCall (concludes_ensuring ?_) hE)
  have hbefore := hend hE
  have hafter := hend hlate
  refine concludes_bind (concludes_fileCall (concludes_bind ?_) hbefore)
  refine concludes_withFile (concludes_writeFile ⟨?_, hbefore⟩ (fail_withFile hbefore)) hbefore
  refine concludes_bind (concludes_rejectSymlinkComponents (concludes_bind (concludes_bind ?_)) hbefore)
  refine concludes_fileCall (concludes_tx (concludes_bind
    (concludes_fileCall (concludes_ensuring ?_) hafter))) hbefore
  refine concludes_fileCall (concludes_fileCall ?_ hafter) fun e he => concludes_fileCall (hafter e he) ?_
  · refine concludes_bind (concludes_temporaryExists (fun found => ?_) hlate)
    cases found with
    | true => exact concludes_fileCall hQ hlate
    | false => exact concludes_pure hQ
  · have hfail := hafter
    rw [← fail_fail] at hfail
    exact hfail

/-- `write`: the file is replaced by what the content encodes to, or it is not. -/
theorem concludes_write {expectedVersion : String} {content : Str}
    {Q : String → SettingsFile → Course → Prop}
    (hQ : ∀ name bytes, encodeUtf8 content = some bytes → bytes.size ≤ maxIniBytes →
      Q name (some bytes) { c.touch with replaced := true })
    (hE : ∀ kind, E (.storage kind) s c)
    (hfail : ∀ kind, E (.storage kind) s c.fail ∧ E (.storage kind) s c.touch.fail)
    (hencode : encodeUtf8 content = none → E .unicodeEncode s { c with unencodable := true })
    (hlate : ∀ kind bytes, encodeUtf8 content = some bytes →
      E (.storage kind) (some bytes) { c.touch with replaced := true }.fail) :
    Concludes (write sha256 path expectedVersion content) Q E s c := by
  refine concludes_bind (concludes_readCurrent (fun old _ _ _ => ?_) (fun kind => (hfail kind).1)
    fun _ => hE)
  refine concludes_bind (concludes_raiseIf (fun _ => hE _) fun _ =>
    concludes_bind (concludes_bind (concludes_tx ?_)))
  cases hbytes : encodeUtf8 content with
  | none =>
    refine concludes_raise ?_
    rw [Course.next, hbytes, Option.isNone_none, Bool.or_true]
    exact hencode hbytes
  | some bytes =>
    have hnext : c.next (.tx (.encode content)) = c := by
      rw [Course.next, hbytes, Option.isNone_some, Bool.or_false]
    rw [hnext]
    refine concludes_pure (concludes_bind (concludes_raiseIf (fun _ => hE _) fun hsize => ?_))
    refine concludes_bind (concludes_clock fun now => concludes_bind (concludes_tryCatch ?_))
    have hraise {s' : SettingsFile} {c' : Course} (h : ∀ kind, E (.storage kind) s' c') {Q}
        (e : SettingsError) (he : IsFileError e) :
        Concludes (raise (writeError e) : SettingsM Unit) Q E s' c' := by
      rcases he with ⟨o, rfl⟩ | rfl
      · cases o <;> exact concludes_raise (h _)
      · exact concludes_raise (h _)
    refine concludes_bind (concludes_writeExclusive (concludes_atomicReplace (concludes_pure ?_) ?_ ?_) ?_)
    · exact hQ _ bytes hbytes (Nat.not_lt.mp hsize)
    · exact hraise fun kind => (hfail kind).2
    · exact hraise fun kind => hlate kind bytes hbytes
    · exact hraise fun kind => (hfail kind).2

end Storage

end PalworldManager
