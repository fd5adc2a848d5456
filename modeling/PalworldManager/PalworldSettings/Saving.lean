/-
# Saving the form

`save` is given the texts of a form.  A form that is sent back as it was shown changes
nothing unless a text of it is read as another one (`save_form_iff`).  Whatever is sent,
`save` leaves one true audit event, and the file as it was if it raises, unless a call of
the operating system fails once the file is replaced, or a text cannot be encoded
(`save_atomic_iff`).
-/

import PalworldManager.PalworldSettings.Course
import PalworldManager.PalworldSettings.Replacements

namespace PalworldManager

open Effects Text
open Effects.Exec hiding bind ask

section Save

variable {sha256 : ByteArray → String} {path : SettingsPath} {s : SettingsFile}
  {updates replacements : List (Str × Str)} {expectedVersion : String} {user : ℕ}

/-- How an audited call may end: with one event of that result. -/
structure IsAudited (c : Course) (result : AuditResult) : Prop where
  late : c.late = false
  unencodable : c.unencodable = false
  audits : ∃ event, c.audits = [event] ∧ event.result = result

/-- The form of the file gives a string a value that cannot be encoded. -/
def FormUnencodable (sha256 : ByteArray → String) (s : SettingsFile)
    (updates : List (Str × Str)) : Prop :=
  ∃ bytes content inspected, IsReadable s bytes content ∧
    inspect ⟨content, sha256 bytes⟩ = .ok inspected ∧
    GivesUnencodable updates inspected.snapshot.editableFields

/-- How a call may raise: audited, with the file as it was; after a late failure, with
another file; or without an audit event, of a text that cannot be encoded, which `U` tells. -/
def Raised (U : Prop) (s s' : SettingsFile) (c : Course) : Prop :=
  IsAudited c .failure ∧ s' = s ∨ c.late = true ∧ c.unencodable = false ∧ s' ≠ s ∨
    U ∧ c.unencodable = true ∧ c.audits = []

/-- What the handlers of `save` are given. -/
def Raises (U : Prop) (s : SettingsFile) (e : SettingsError) (s' : SettingsFile)
    (c : Course) : Prop :=
  c.audits = [] ∧
    ((∀ o, e ≠ .os o) ∧ e ≠ .unicodeEncode ∧ c.late = false ∧ c.unencodable = false ∧ s' = s ∨
      c.late = true ∧ c.unencodable = false ∧ s' ≠ s ∨
      U ∧ e = .unicodeEncode ∧ c.unencodable = true)

/-- An audit leaves one event more. -/
theorem concludes_audit {result : AuditResult} {changed : List Str} {backup kind : Option String}
    {c : Course} {Q : Unit → SettingsFile → Course → Prop}
    {E : SettingsError → SettingsFile → Course → Prop}
    (hQ : ∀ event : SettingsAudit, event.result = result →
      Q () s { c with audits := c.audits ++ [event] }) :
    Concludes (audit user result changed backup kind) Q E s c :=
  concludes_bind (concludes_clock fun _ => concludes_tx (hQ _ rfl))

/-- The handlers record one event, but for what they do not handle. -/
theorem concludes_handlers {e : SettingsError} {s' : SettingsFile} {c : Course}
    {Q : PalworldSettingsSaveResult → SettingsFile → Course → Prop}
    {E : SettingsFile → Course → Prop}
    (hhandled : (∀ o, e ≠ .os o) → e ≠ .unicodeEncode → ∀ event : SettingsAudit,
      event.result = .failure → E s' { c with audits := c.audits ++ [event] })
    (hos : (∃ o, e = .os o) → E s' c) (hencode : e = .unicodeEncode → E s' c) :
    Concludes (saveError updates user e) Q (fun _ => E) s' c := by
  cases e with
  | storage kind =>
    have hhandled := hhandled (by simp) (by simp)
    exact concludes_bind
      (concludes_audit fun event hevent => concludes_raise (hhandled event hevent))
  | validation message =>
    have hhandled := hhandled (by simp) (by simp)
    exact concludes_bind
      (concludes_audit fun event hevent => concludes_raise (hhandled event hevent))
  | value error =>
    have hhandled := hhandled (by simp) (by simp)
    exact concludes_bind
      (concludes_audit fun event hevent => concludes_raise (hhandled event hevent))
  | parse error =>
    have hhandled := hhandled (by simp) (by simp)
    exact concludes_bind
      (concludes_audit fun event hevent => concludes_raise (hhandled event hevent))
  | os error => exact concludes_raise (hos ⟨error, rfl⟩)
  | unicodeEncode => exact concludes_raise (hencode rfl)

/-- They leave one event, but for a text that cannot be encoded. -/
theorem concludes_saveError {U : Prop} {e : SettingsError} {s' : SettingsFile} {c : Course}
    (h : Raises U s e s' c) {Q : PalworldSettingsSaveResult → SettingsFile → Course → Prop} :
    Concludes (saveError updates user e) Q (fun _ => Raised U s) s' c := by
  obtain ⟨haudits, h⟩ := h
  refine concludes_handlers (fun hos hencode event hevent => ?_) ?_ ?_
  · rcases h with ⟨-, -, hlate, hunencodable, hs⟩ | hlate | ⟨-, hunicode, -⟩
    · exact .inl ⟨⟨hlate, hunencodable, event, by rw [haudits, List.nil_append], hevent⟩, hs⟩
    · exact .inr (.inl hlate)
    · exact absurd hunicode hencode
  · rintro ⟨o, rfl⟩
    rcases h with ⟨hos, -⟩ | hlate | ⟨-, hunicode, -⟩
    · exact absurd rfl (hos o)
    · exact .inr (.inl hlate)
    · cases hunicode
  · rintro rfl
    rcases h with ⟨-, hencode, -⟩ | hlate | ⟨hU, -, hunencodable⟩
    · exact absurd rfl hencode
    · exact .inr (.inl hlate)
    · exact .inr (.inr ⟨hU, hunencodable, haudits⟩)

/-- Before the file is replaced, what is raised leaves it as it was. -/
theorem raises_before {U : Prop} {e : SettingsError} {c : Course} (haudits : c.audits = [])
    (hlate : c.late = false) (hunencodable : c.unencodable = false) (hos : ∀ o, e ≠ .os o)
    (hencode : e ≠ .unicodeEncode) : Raises U s e s c :=
  ⟨haudits, .inl ⟨hos, hencode, hlate, hunencodable, rfl⟩⟩

/-- **Once there is something to replace**, the file is replaced by another one. -/
theorem concludes_saveReplacements {bytes : ByteArray} {content : Str} {parsed : ParsedIni}
    (hs : IsReadable s bytes content)
    {U : Prop} (hU : encodeUtf8 (parsed.render replacements) = none → U)
    (hne : ∀ parsed', parseIni (parsed.render replacements) = .ok parsed' →
      parsed.render replacements ≠ content) :
    Concludes (saveReplacements sha256 path expectedVersion user parsed replacements)
      (fun result _ c => IsAudited c .success ∧ result.changedFields = replacements.map Prod.fst)
      (Raises U s) s .start := by
  have hbefore {c : Course} (hc : c.audits = [] ∧ c.late = false ∧ c.unencodable = false)
      (kind : SettingsStorageErrorKind) : Raises U s (.storage kind) s c :=
    raises_before hc.1 hc.2.1 hc.2.2 (by simp) (by simp)
  refine concludes_bind (concludes_ofExcept (fun parsed' hparsed' => ?_) fun e he => ?_)
  · have hrendered : parseIni (parsed.render replacements) = .ok parsed' := by
      cases h : parseIni (parsed.render replacements) with
      | error e => simp [h, Except.mapError] at hparsed'
      | ok p => simpa [h, Except.mapError] using hparsed'
    -- the new bytes decode to what was rendered
    have hother {bytes' : ByteArray} (h : encodeUtf8 (parsed.render replacements) = some bytes') :
        some bytes' ≠ s := by
      rw [hs.file_eq]
      rintro hbytes
      obtain rfl : bytes' = bytes := Option.some.inj hbytes
      have hdecode := decodeUtf8_of_encodeUtf8 h
      rw [hs.decode] at hdecode
      exact hne parsed' hrendered (Option.some.inj hdecode).symm
    have hlate {bytes' : ByteArray} (h : encodeUtf8 (parsed.render replacements) = some bytes')
        {e : SettingsError} {c : Course} (hc : c.audits = [])
        (hlate : c.late = true ∧ c.unencodable = false) : Raises U s e (some bytes') c :=
      ⟨hc, .inr (.inl ⟨hlate.1, hlate.2, hother h⟩)⟩
    refine concludes_bind (concludes_write (fun name bytes' hbytes' hsize => ?_)
      (hbefore ⟨rfl, rfl, rfl⟩)
      (fun kind => ⟨hbefore ⟨rfl, rfl, rfl⟩ kind, hbefore ⟨rfl, rfl, rfl⟩ kind⟩)
      (fun hnone => ⟨rfl, .inr (.inr ⟨hU hnone, rfl, rfl⟩)⟩)
      fun kind bytes' hbytes' => hlate hbytes' rfl ⟨rfl, rfl⟩)
    have hreadable : IsReadable (some bytes') bytes' (parsed.render replacements) :=
      ⟨rfl, hsize, decodeUtf8_of_encodeUtf8 hbytes'⟩
    refine concludes_bind (concludes_read (fun bytes₁ content₁ h₁ => ?_)
      (fun _ => hlate hbytes' rfl ⟨rfl, rfl⟩) fun hno => absurd hreadable (hno _ _))
    obtain rfl : bytes' = bytes₁ := Option.some.inj h₁.file_eq
    obtain rfl : parsed.render replacements = content₁ :=
      Option.some.inj (hreadable.decode.symm.trans h₁.decode)
    refine concludes_bind (concludes_ofExcept (fun updated _ => ?_) fun e he => ?_)
    · exact concludes_bind (concludes_audit fun event hevent =>
        concludes_pure ⟨⟨rfl, rfl, event, rfl, hevent⟩, rfl⟩)
    · simp [inspect, hrendered] at he
  · obtain ⟨error, rfl⟩ : ∃ error, e = .parse error := by
      cases h : parseIni (parsed.render replacements) with
      | error error =>
        obtain rfl : SettingsError.parse error = e := by simpa [h, Except.mapError] using he
        exact ⟨error, rfl⟩
      | ok p => simp [h, Except.mapError] at he
    exact raises_before rfl rfl rfl (by simp) (by simp)

/-- **Whatever is sent**, `save` ends with one event, and with the file as it was if it
raises, or it has failed late or on a text that cannot be encoded. -/
theorem concludes_save : Concludes (save sha256 path updates expectedVersion user)
    (fun _ _ c => IsAudited c .success) (fun _ => Raised (FormUnencodable sha256 s updates) s)
      s .start := by
  refine concludes_tryCatch (Concludes.mono ?_ (fun _ _ _ => id)
    fun e s' c h => concludes_saveError h)
  have hbefore {c : Course} (hc : c.audits = [] ∧ c.late = false ∧ c.unencodable = false)
      {e : SettingsError} (hos : ∀ o, e ≠ .os o) (hencode : e ≠ .unicodeEncode) :
      Raises (FormUnencodable sha256 s updates) s e s c :=
    raises_before hc.1 hc.2.1 hc.2.2 hos hencode
  have hstart : Course.start.audits = [] ∧ Course.start.late = false ∧
    Course.start.unencodable = false := ⟨rfl, rfl, rfl⟩
  refine concludes_bind (concludes_read (fun bytes content hs => ?_)
    (fun kind => hbefore ⟨rfl, rfl, rfl⟩ (by simp) (by simp))
    fun _ kind => hbefore hstart (by simp) (by simp))
  refine concludes_bind
    (concludes_raiseIf (fun _ => hbefore hstart (by simp) (by simp)) fun _ => ?_)
  refine concludes_bind (concludes_ofExcept (fun inspected hinspect => ?_) fun e he => ?_)
  · refine concludes_bind
      (concludes_raiseIf (fun _ => hbefore hstart (by simp) (by simp)) fun _ => ?_)
    refine concludes_bind (concludes_ofExcept (fun replacements hcollect => ?_) fun e he => ?_)
    · split_ifs with hnil
      · exact concludes_bind (concludes_audit fun event hevent =>
          concludes_pure ⟨rfl, rfl, event, rfl, hevent⟩)
      · have hcollect' : collectReplacements updates inspected.snapshot.editableFields =
            .ok replacements := by
          cases h : collectReplacements updates inspected.snapshot.editableFields with
          | error error => simp [h, Except.mapError] at hcollect
          | ok rs => simpa [h, Except.mapError] using hcollect
        have hunencodable (hnone : encodeUtf8 (inspected.parsed.render replacements) = none) :
            FormUnencodable sha256 s updates := by
          refine ⟨bytes, content, inspected, hs, hinspect, ?_⟩
          by_contra hno
          have hsome := isSome_encodeUtf8.mpr
            ((isEncodable_render_iff hinspect hcollect' hs.isEncodable).mpr hno)
          simp [hnone] at hsome
        exact (concludes_saveReplacements hs hunencodable
          fun parsed' => render_ne hinspect hcollect' hnil).mono
          (fun _ _ _ h => h.1) fun _ _ _ => id
    · obtain ⟨error, rfl⟩ : ∃ error, e = .value error := by
        cases h : collectReplacements updates inspected.snapshot.editableFields with
        | error error =>
          obtain rfl : SettingsError.value error = e := by simpa [h, Except.mapError] using he
          exact ⟨error, rfl⟩
        | ok rs => simp [h, Except.mapError] at he
      exact hbefore hstart (by simp) (by simp)
  · obtain rfl : unsafeFormat = e := by
      rw [inspect] at he
      cases hparse : parseIni content with
      | error error => simpa [hparse] using he
      | ok parsed => simp [hparse] at he
    exact hbefore hstart (by simp [unsafeFormat]) (by simp [unsafeFormat])

end Save

section Runs

variable {sha256 : ByteArray → String} {path : SettingsPath} {s s' : SettingsFile}
  {updates : List (Str × Str)} {expectedVersion : String} {user : ℕ}
  {tr tr' : List SettingsEvent}

/-- What holds where a method ends holds of every run that is over. -/
theorem Concludes.run {α : Type} {x : SettingsM α} {Q : α → SettingsFile → Course → Prop}
    {E : SettingsError → SettingsFile → Course → Prop} {r : Except SettingsError α}
    (h : Concludes x Q E s .start) (hrun : Prog.Run Eq s (x ()) tr s' (.ret (r, ()))) :
    (∀ a, r = .ok a → Q a s' (course tr)) ∧ ∀ e, r = .error e → E e s' (course tr) := by
  have hsafe := hrun.safe (fun _ => rfl) (fun _ _ _ => Eq.trans)
    (fun _ _ _ _ hs h => hs ▸ h) (safe_of_wp (h [] rfl))
  rw [List.nil_append] at hsafe
  cases r with
  | ok a => exact ⟨fun a' ha => Except.ok.inj ha ▸ hsafe, fun e he => by cases he⟩
  | error e => exact ⟨fun a ha => (by cases ha), fun e' he => Except.error.inj he ▸ hsafe⟩

section Samples

/-- The answers of a system where one call fails. -/
def sampleAnswer (failing : Option FileCall) : (call : SettingsCall) → Option call.Reply
  | .file call => some (if some call = failing then some .other else none)
  | .isLink _ => some (.ok false)
  | .fstat => some (.ok ⟨true, 0o644⟩)
  | .exists => some (.ok false)
  | .clock => some "20260101T000000000000Z"

/-- The run of a method in such a system. -/
def evaluate {α : Type} (failing : Option FileCall) (s : SettingsFile) (x : SettingsM α) :
    Option (List SettingsEvent × SettingsFile × Except SettingsError α) :=
  match Prog.advance (sampleAnswer failing) 200 s (x ()) with
  | (tr, s', .ret (r, _)) => some (tr, s', r)
  | _ => none

/-- What is evaluated is a run. -/
theorem evaluate_run {α : Type} {x : SettingsM α} {failing : Option FileCall}
    {r : Except SettingsError α} (h : evaluate failing s x = some (tr, s', r)) :
    Prog.Run Eq s (x ()) tr s' (.ret (r, ())) := by
  have hrun := Prog.advance_run Eq (sampleAnswer failing) 200 s (x ())
  rw [evaluate] at h
  generalize Prog.advance (sampleAnswer failing) 200 s (x ()) = result at h hrun
  obtain ⟨tr₁, s₁, p⟩ := result
  cases p with
  | ret a =>
    obtain ⟨rfl, rfl, rfl⟩ : tr₁ = tr ∧ s₁ = s' ∧ a.1 = r := by simpa using h
    exact hrun
  | tx f label k => cases h
  | ask c k => cases h

/-- A file with a name that has blanks around it, one with the name itself, and the
versions of the two. -/
def blankFile : SettingsFile :=
  some "[/Script/Pal.PalGameWorldSettings]\nOptionSettings=(ServerName=\"  hello  \")\n".toUTF8

def plainFile : SettingsFile :=
  some "[/Script/Pal.PalGameWorldSettings]\nOptionSettings=(ServerName=\"hello\")\n".toUTF8

def blankVersion : String := "2fe43a6df455d3540689829e48de9e746c14f604084399a4cbb6eaed11d8a37e"

def plainVersion : String := "5db5b8a1bd9de341b785bd1a1a19b2d6c8e524248da7e83e7b547f0ee05f56f8"

/-- The hash, of these files. -/
def sampleVersions (bytes : ByteArray) : String :=
  if some bytes = blankFile then blankVersion else plainVersion

def samplePath : SettingsPath := ⟨["srv", "Config"], "PalWorldSettings.ini"⟩

/-- A form with a name. -/
def nameForm (name : String) : List (Str × Str) := [(str "ServerName", str name)]

/-- The form of a page that shows a name. -/
def showsName (version name : String) (r : Except SettingsError PalworldSettingsSnapshot) : Bool :=
  r.toOption.any fun snapshot => snapshot.version = version &&
    snapshot.editableFields.map (fun field => (field.definition.key, field.value)) =
      [(str "ServerName", some (str name))]

/-- What raises some error. -/
def raisesError {α : Type} (r : Except SettingsError α) (error : SettingsError) : Bool :=
  match r with
  | .ok _ => false
  | .error e => e = error

/-- What is checked to raise raises. -/
theorem raisesError_eq {α : Type} {r : Except SettingsError α} {error : SettingsError}
    (h : raisesError r error = true) : r = .error error := by
  cases r with
  | ok a => cases h
  | error e => rw [of_decide_eq_true h]

end Samples

/-- A call of `save` is atomic and audited: it recorded one event, which says success if
and only if the call returned, and if it raised the file is as it was. -/
structure IsAtomic (s s' : SettingsFile) (tr : List SettingsEvent)
    (r : Except SettingsError PalworldSettingsSaveResult) : Prop where
  audits : ∃ event, (course tr).audits = [event] ∧ (event.result = .success ↔ r.isOk = true)
  unchanged : r.isOk = false → s' = s

/-- **Settings save is atomic and audited** if and only if every text that is encoded can
be, and no call of the operating system fails once the file is replaced. -/
theorem save_atomic_iff {r : Except SettingsError PalworldSettingsSaveResult}
    (hrun : Prog.Run Eq s (save sha256 path updates expectedVersion user ()) tr s'
      (.ret (r, ()))) :
    IsAtomic s s' tr r ↔ (course tr).unencodable = false ∧ (course tr).late = false := by
  obtain ⟨hok, herror⟩ := concludes_save.run hrun
  cases r with
  | ok result =>
    obtain ⟨hlate, hunencodable, event, haudits, hresult⟩ := hok result rfl
    refine ⟨fun _ => ⟨hunencodable, hlate⟩, fun _ => ⟨⟨event, haudits, ?_⟩, fun h => by cases h⟩⟩
    simp [hresult, Except.isOk, Except.toBool]
  | error e =>
    rcases herror e rfl with ⟨⟨hlate, hunencodable, event, haudits, hresult⟩, hs⟩ |
      ⟨hlate, -, hs⟩ | ⟨-, hunencodable, haudits⟩
    · refine ⟨fun _ => ⟨hunencodable, hlate⟩, fun _ => ⟨⟨event, haudits, ?_⟩, fun _ => hs⟩⟩
      simp [hresult, Except.isOk, Except.toBool]
    · refine ⟨fun h => absurd (h.unchanged rfl) hs, fun h => ?_⟩
      simp [hlate] at h
    · refine ⟨fun h => ?_, fun h => ?_⟩
      · obtain ⟨event, hevent, -⟩ := h.audits
        simp [haudits] at hevent
      · simp [hunencodable] at h

/-- **What a run of `save` cannot encode** was given by the form: it gives a string of the
file another value, with a lone surrogate. -/
theorem save_unencodable {r : Except SettingsError PalworldSettingsSaveResult}
    (hrun : Prog.Run Eq s (save sha256 path updates expectedVersion user ()) tr s'
      (.ret (r, ()))) (h : (course tr).unencodable = true) :
    FormUnencodable sha256 s updates := by
  obtain ⟨hok, herror⟩ := concludes_save.run hrun
  cases r with
  | ok result => exact absurd ((hok result rfl).unencodable.symm.trans h) Bool.false_ne_true
  | error e =>
    rcases herror e rfl with ⟨haudited, -⟩ | ⟨-, hencodable, -⟩ | ⟨hform, -⟩
    · exact absurd (haudited.unencodable.symm.trans h) Bool.false_ne_true
    · exact absurd (hencodable.symm.trans h) Bool.false_ne_true
    · exact hform

/-- The run that saves a name. -/
theorem evaluate_saveName :
    (evaluate none blankFile
      (save sampleVersions samplePath (nameForm "hello") blankVersion 1)).any
      (fun r => r.2.2.isOk && r.2.1 = plainFile && !(course r.1).unencodable &&
        !(course r.1).late) = true := by
  decide +kernel

/-- A name is saved. -/
theorem save_atomic_name : ∃ tr r,
    Prog.Run Eq blankFile (save sampleVersions samplePath (nameForm "hello") blankVersion 1 ()) tr
      plainFile (.ret (r, ())) ∧ IsAtomic blankFile plainFile tr r := by
  obtain ⟨⟨tr, s', r⟩, hrun, hchecks⟩ := exists_some evaluate_saveName
  simp only [Bool.and_eq_true, Bool.not_eq_true', decide_eq_true_eq] at hchecks
  obtain ⟨⟨⟨-, rfl⟩, hunencodable⟩, hlate⟩ := hchecks
  have hrun' := evaluate_run hrun
  exact ⟨tr, r, hrun', (save_atomic_iff hrun').mpr ⟨hunencodable, hlate⟩⟩

/-- The run that saves a name but cannot synchronise the directory, and the one that is given
a name with a lone surrogate. -/
theorem evaluate_raises :
    ((evaluate (some .fsyncDirectory) blankFile
        (save sampleVersions samplePath (nameForm "hello") blankVersion 1)).any
        (fun r => raisesError r.2.2 (.storage .io) && r.2.1 = plainFile) &&
      (evaluate none blankFile
        (save sampleVersions samplePath (nameForm "\"\\ud800\"") blankVersion 1)).any
        (fun r => raisesError r.2.2 .unicodeEncode && (course r.1).audits = [])) = true := by
  decide +kernel

/-- The directory cannot be synchronised: `save` raises, and the file is another one.  A
name that reads as a lone surrogate cannot be encoded: `save` raises, and no event says so. -/
theorem save_not_atomic :
    (∃ tr r, Prog.Run Eq blankFile (save sampleVersions samplePath (nameForm "hello") blankVersion
        1 ()) tr plainFile (.ret (r, ())) ∧
      r = .error (.storage .io) ∧ ¬IsAtomic blankFile plainFile tr r) ∧
    ∃ tr s' r, Prog.Run Eq blankFile (save sampleVersions samplePath
        (nameForm "\"\\ud800\"") blankVersion 1 ()) tr s' (.ret (r, ())) ∧
      r = .error .unicodeEncode ∧ ¬IsAtomic blankFile s' tr r := by
  obtain ⟨hunsynced, hsurrogate⟩ := (Bool.and_eq_true ..).mp evaluate_raises
  constructor
  · obtain ⟨⟨tr, s', r⟩, hrun, hchecks⟩ := exists_some hunsynced
    simp only [Bool.and_eq_true, decide_eq_true_eq] at hchecks
    obtain ⟨hr, rfl⟩ := hchecks
    have hother : plainFile ≠ blankFile := by decide +kernel
    refine ⟨tr, r, evaluate_run hrun, raisesError_eq hr, fun hatomic => ?_⟩
    rw [raisesError_eq hr] at hatomic
    exact hother (hatomic.unchanged rfl)
  · obtain ⟨⟨tr, s', r⟩, hrun, hchecks⟩ := exists_some hsurrogate
    simp only [Bool.and_eq_true, decide_eq_true_eq] at hchecks
    obtain ⟨hr, haudits⟩ := hchecks
    refine ⟨tr, s', r, evaluate_run hrun, raisesError_eq hr, fun hatomic => ?_⟩
    obtain ⟨event, hevent, -⟩ := hatomic.audits
    simp [haudits] at hevent

/-- A mapping that sends every editable field of a snapshot to its own value, and no other
key. -/
structure IsForm (snapshot : PalworldSettingsSnapshot) (updates : List (Str × Str)) : Prop where
  value : ∀ field ∈ snapshot.editableFields, updates.lookup field.definition.key = field.value
  keys : ∀ r ∈ updates, r.1 ∈ snapshot.editableKeys

/-- A call of `save` that changed nothing: it returned with no changed field, and neither
wrote a file nor replaced one. -/
structure ChangesNothing (tr : List SettingsEvent)
    (r : Except SettingsError PalworldSettingsSaveResult) : Prop where
  returned : ∃ result, r = .ok result ∧ result.changedFields = []
  wrote : (course tr).wrote = false
  replaced : (course tr).replaced = false

/-- The keys of a form are those that are asked for. -/
theorem IsForm.sameKeys {snapshot : PalworldSettingsSnapshot} (h : IsForm snapshot updates)
    (hshown : ∀ field ∈ snapshot.editableFields, ∃ v, field.value = some v) :
    sameKeys (updates.map Prod.fst) snapshot.editableKeys = true := by
  rw [PalworldManager.sameKeys, Bool.and_eq_true, List.all_eq_true, List.all_eq_true]
  constructor
  · intro key hkey
    obtain ⟨r, hr, rfl⟩ := List.mem_map.mp hkey
    exact decide_eq_true (h.keys r hr)
  · intro key hkey
    obtain ⟨field, hfield, rfl⟩ := List.mem_map.mp hkey
    obtain ⟨v, hv⟩ := hshown field hfield
    have hlookup := h.value field hfield
    rw [hv] at hlookup
    exact decide_eq_true (List.mem_map.mpr ⟨_, mem_of_lookup hlookup, rfl⟩)

/-- What a form changes, and what it does to the file when it changes nothing. -/
theorem concludes_saveForm {bytes : ByteArray} {content : Str} {inspected : InspectedSettings}
    (hs : IsReadable s bytes content)
    (hinspect : inspect ⟨content, sha256 bytes⟩ = .ok inspected)
    (hform : IsForm inspected.snapshot updates) :
    Concludes (save sha256 path updates (sha256 bytes) user)
      (fun result _ c => (result.changedFields = [] ↔
          collectReplacements updates inspected.snapshot.editableFields = .ok []) ∧
        (result.changedFields = [] → c = { Course.start with audits := c.audits }))
      (fun _ _ c => c.failed = true ∨
        collectReplacements updates inspected.snapshot.editableFields ≠ .ok []) s .start := by
  obtain ⟨-, -, hshown⟩ := inspect_eq_ok hinspect
  have hkeys := hform.sameKeys fun field hfield => by
    obtain ⟨-, entry, f, v, -, -, -, hvalue⟩ := hshown field hfield
    exact ⟨v, hvalue⟩
  refine concludes_tryCatch (concludes_bind (concludes_read (fun bytes' content' hs' => ?_)
    (fun kind => ?_) fun hno => absurd hs (hno _ _)))
  · obtain rfl : bytes = bytes' := Option.some.inj (hs.file_eq.symm.trans hs'.file_eq)
    obtain rfl : content = content' := Option.some.inj (hs.decode.symm.trans hs'.decode)
    refine concludes_bind (concludes_raiseIf (fun h => absurd rfl h) fun _ => ?_)
    refine concludes_bind (concludes_ofExcept (fun inspected' h' => ?_) fun e he => ?_)
    · obtain rfl : inspected = inspected' := Except.ok.inj (hinspect.symm.trans h')
      refine concludes_bind (concludes_raiseIf (fun h => ?_) fun _ => ?_)
      · rw [hkeys] at h
        cases h
      · cases hcollect : collectReplacements updates inspected.snapshot.editableFields with
        | error error =>
          refine concludes_bind (concludes_raise ?_)
          exact concludes_handlers (fun _ _ _ _ => .inr (by simp)) (fun _ => .inr (by simp))
            fun _ => .inr (by simp)
        | ok replacements =>
          refine concludes_bind (concludes_pure ?_)
          split_ifs with hnil
          · subst hnil
            exact concludes_bind
              (concludes_audit fun event _ => concludes_pure ⟨by simp, fun _ => rfl⟩)
          · refine (concludes_saveReplacements hs (fun _ => trivial) fun parsed' =>
              render_ne hinspect hcollect hnil).mono (fun result s' c h => ?_) fun e s' c _ => ?_
            · rw [h.2]
              simp [hnil]
            · have hne : (Except.ok replacements : Except SettingValueError _) ≠ .ok [] := by
                simpa using hnil
              exact concludes_handlers (fun _ _ _ _ => .inr hne) (fun _ => .inr hne)
                fun _ => .inr hne
    · rw [hinspect] at he
      cases he
  · exact concludes_handlers (fun _ _ _ _ => .inl rfl) (fun _ => .inl rfl) fun _ => .inl rfl

/-- What `load` returns is what `_inspect` makes of the file. -/
theorem concludes_load : Concludes (load sha256 path)
    (fun snapshot s' _ => s' = s ∧ ∃ bytes content inspected, IsReadable s bytes content ∧
      inspect ⟨content, sha256 bytes⟩ = .ok inspected ∧ snapshot = inspected.snapshot)
    (fun _ _ _ => True) s .start := by
  refine concludes_bind
    (concludes_read (fun bytes content hs => ?_) (fun _ => trivial) fun _ _ => trivial)
  refine concludes_bind (concludes_ofExcept (fun inspected hinspect => ?_) fun _ _ => trivial)
  exact concludes_pure ⟨rfl, bytes, content, inspected, hs, hinspect, rfl⟩

/-- **A form that is sent back as it was shown** changes nothing if and only if no call of
the operating system fails, and every string that is shown is read again as it is. -/
theorem save_form_iff {snapshot : PalworldSettingsSnapshot}
    {r : Except SettingsError PalworldSettingsSaveResult}
    (hload : Prog.Run Eq s (load sha256 path ()) tr s' (.ret (.ok snapshot, ())))
    (hform : IsForm snapshot updates) {s'' : SettingsFile}
    (hsave : Prog.Run Eq s' (save sha256 path updates snapshot.version user ()) tr' s''
      (.ret (r, ()))) :
    ChangesNothing tr' r ↔ (course tr').failed = false ∧ ∀ field ∈ snapshot.editableFields,
      field.definition.kind = .string → ∀ v, field.value = some v → IsPlain v := by
  obtain ⟨rfl, bytes, content, inspected, hs, hinspect, rfl⟩ := (concludes_load.run hload).1 _ rfl
  obtain ⟨-, hversion, hshown⟩ := inspect_eq_ok hinspect
  rw [hversion] at hsave
  obtain ⟨hok, herror⟩ := (concludes_saveForm hs hinspect hform).run hsave
  -- the texts are read as they are shown
  have hcollect : collectReplacements updates inspected.snapshot.editableFields = .ok [] ↔
      ∀ field ∈ inspected.snapshot.editableFields, field.definition.kind = .string →
        ∀ v, field.value = some v → IsPlain v := by
    rw [collectReplacements_eq_nil]
    refine forall₂_congr fun field hfield => ?_
    obtain ⟨hdef, entry, f, v, -, -, hv, hvalue⟩ := hshown field hfield
    have htext : textOf updates field = v := by
      rw [textOf, hform.value field hfield, hvalue, Option.getD_some]
    have hself := parseSettingValue_self hdef hv
    rw [htext, hvalue]
    constructor
    · rintro ⟨w, hw, hwv⟩ hkind v' hv'
      obtain rfl := Option.some.inj hwv
      obtain rfl := Option.some.inj hv'
      exact hself.mp hw hkind
    · intro h
      exact ⟨v, hself.mpr fun hkind => h hkind v rfl, rfl⟩
  rw [← hcollect]
  constructor
  · rintro ⟨⟨result, rfl, hchanged⟩, -, -⟩
    obtain ⟨hiff, hcourse⟩ := hok result rfl
    refine ⟨?_, hiff.mp hchanged⟩
    rw [hcourse hchanged]
    rfl
  · rintro ⟨hfailed, hnil⟩
    cases r with
    | ok result =>
      obtain ⟨hiff, hcourse⟩ := hok result rfl
      have hchanged := hiff.mpr hnil
      refine ⟨⟨result, rfl, hchanged⟩, ?_, ?_⟩
      · rw [hcourse hchanged]
        rfl
      · rw [hcourse hchanged]
        rfl
    | error e =>
      rcases herror e rfl with h | h
      · rw [hfailed] at h
        cases h
      · exact absurd hnil h

/-- The form of a page that shows a name. -/
theorem isForm_of_showsName {version name : String} {snapshot : PalworldSettingsSnapshot}
    (h : showsName version name (.ok snapshot) = true) :
    snapshot.version = version ∧ IsForm snapshot (nameForm name) ∧
      ∀ field ∈ snapshot.editableFields, field.value = some (str name) := by
  simp only [showsName, Except.toOption, Option.any_some, Bool.and_eq_true,
    decide_eq_true_eq] at h
  obtain ⟨hversion, hfields⟩ := h
  obtain ⟨field, hfield, hshown⟩ := List.map_eq_singleton_iff.mp hfields
  obtain ⟨hkey, hvalue⟩ := Prod.mk.inj hshown
  refine ⟨hversion, ⟨?_, ?_⟩, ?_⟩
  · intro field' hfield'
    rw [hfield, List.mem_singleton] at hfield'
    rw [hfield', hkey, hvalue]
    exact List.lookup_cons_self ..
  · intro r hr
    rw [List.mem_singleton.mp hr, PalworldSettingsSnapshot.editableKeys, hfield]
    simp [hkey]
  · intro field' hfield'
    rw [hfield, List.mem_singleton] at hfield'
    rw [hfield', hvalue]

/-- The page of a file with a plain name, and the run that is sent it back. -/
theorem evaluate_plain :
    ((evaluate none plainFile (load sampleVersions samplePath)).any
        (fun r => r.2.1 = plainFile && showsName plainVersion "hello" r.2.2) &&
      (evaluate none plainFile
        (save sampleVersions samplePath (nameForm "hello") plainVersion 1)).any
        (fun r => !(course r.1).failed)) = true := by
  decide +kernel

/-- A plain name is sent back. -/
theorem save_form_plain : ∃ snapshot tr tr' s' r,
    Prog.Run Eq plainFile (load sampleVersions samplePath ()) tr plainFile
        (.ret (.ok snapshot, ())) ∧
      Prog.Run Eq plainFile (save sampleVersions samplePath (nameForm "hello") snapshot.version
        1 ()) tr' s' (.ret (r, ())) ∧ ChangesNothing tr' r := by
  obtain ⟨hload, hsave⟩ := (Bool.and_eq_true ..).mp evaluate_plain
  obtain ⟨⟨tr, s₁, r₁⟩, hrun, hchecks⟩ := exists_some hload
  obtain ⟨⟨tr', s', r⟩, hrun', hchecks'⟩ := exists_some hsave
  simp only [Bool.and_eq_true, Bool.not_eq_true', decide_eq_true_eq] at hchecks hchecks'
  obtain ⟨rfl, hshows⟩ := hchecks
  cases r₁ with
  | error e => cases hshows
  | ok snapshot =>
    obtain ⟨hversion, hform, hvalues⟩ := isForm_of_showsName hshows
    have hloaded := evaluate_run hrun
    have hsaved := evaluate_run hrun'
    rw [← hversion] at hsaved
    have hplain : IsPlain (str "hello") := ⟨by decide +kernel, by decide +kernel⟩
    refine ⟨snapshot, tr, tr', s', r, hloaded, hsaved, (save_form_iff hloaded hform hsaved).mpr
      ⟨hchecks', fun field hfield _ v hv => ?_⟩⟩
    obtain rfl : str "hello" = v := Option.some.inj ((hvalues field hfield).symm.trans hv)
    exact hplain

/-- The page of a file with blanks around the name, and the run that is sent it back. -/
theorem evaluate_blank :
    ((evaluate none blankFile (load sampleVersions samplePath)).any
        (fun r => r.2.1 = blankFile && showsName blankVersion "  hello  " r.2.2) &&
      (evaluate none blankFile
        (save sampleVersions samplePath (nameForm "  hello  ") blankVersion 1)).any
        (fun r => !(course r.1).failed && (course r.1).replaced && r.2.1 = plainFile)) = true := by
  decide +kernel

/-- A name with blanks around it is sent back: it is saved without them. -/
theorem save_form_blank : ∃ snapshot tr tr' r,
    Prog.Run Eq blankFile (load sampleVersions samplePath ()) tr blankFile
        (.ret (.ok snapshot, ())) ∧ IsForm snapshot (nameForm "  hello  ") ∧
      Prog.Run Eq blankFile (save sampleVersions samplePath (nameForm "  hello  ") snapshot.version
        1 ()) tr' plainFile (.ret (r, ())) ∧ (course tr').failed = false ∧
      ¬ChangesNothing tr' r := by
  obtain ⟨hload, hsave⟩ := (Bool.and_eq_true ..).mp evaluate_blank
  obtain ⟨⟨tr, s₁, r₁⟩, hrun, hchecks⟩ := exists_some hload
  obtain ⟨⟨tr', s', r⟩, hrun', hchecks'⟩ := exists_some hsave
  simp only [Bool.and_eq_true, Bool.not_eq_true', decide_eq_true_eq] at hchecks hchecks'
  obtain ⟨rfl, hshows⟩ := hchecks
  obtain ⟨⟨hfailed, hreplaced⟩, rfl⟩ := hchecks'
  cases r₁ with
  | error e => cases hshows
  | ok snapshot =>
    obtain ⟨hversion, hform, -⟩ := isForm_of_showsName hshows
    have hsaved := evaluate_run hrun'
    rw [← hversion] at hsaved
    refine ⟨snapshot, tr, tr', r, evaluate_run hrun, hform, hsaved, hfailed, fun hnothing => ?_⟩
    rw [hnothing.replaced] at hreplaced
    cases hreplaced

end Runs

end PalworldManager
