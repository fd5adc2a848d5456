/-
# Names with the id of a job

Several services put the id of a job into a name and look for such names again, each with a
pattern of its own: the log of a job (`jobs/logs.py`), the temporary directories of a backup and
of a download (`backups/service.py`, `backups/drive_service.py`), the archive and the remote
temporary file (`integrations/google_drive.py`).  The id is written with at least six digits;
some of the patterns ask for six digits and no more (`namesRecognised_iff`).
-/

import PalworldManager.Backups.Scheduler
import PalworldManager.Backups.Service
import PalworldManager.Text.Decimal

namespace PalworldManager

open Text

section Model

/-- `uuid4()`. -/
abbrev Uuid := Fin (2 ^ 128)

/-- `UUID.hex`. -/
def Uuid.hex (u : Uuid) : String :=
  let digits := Nat.toDigits 16 u.val
  String.ofList (List.replicate (32 - digits.length) '0' ++ digits)

/-- A number in so many digits. -/
def fixedDigits : ℕ → ℕ → List Char
  | 0, _ => []
  | width + 1, n => fixedDigits width (n / 10) ++ [digit n]

/-- An instant of UTC: its date and the microseconds of its day. -/
structure Instant where
  date : Date
  time : Fin 86400000000

/-- `strftime("%Y%m%dT%H%M%S%fZ")`. -/
def Instant.stamp (i : Instant) : String :=
  let seconds := i.time.val / 1000000
  String.ofList (fixedDigits 4 i.date.year ++ fixedDigits 2 i.date.month ++
    fixedDigits 2 i.date.day ++ 'T' :: (fixedDigits 2 (seconds / 3600) ++
    fixedDigits 2 (seconds / 60 % 60) ++ fixedDigits 2 (seconds % 60) ++
    fixedDigits 6 (i.time.val % 1000000)) ++ ['Z'])

/-- `[0-9]`. -/
def asciiDigit : Regex := .char Char.isDigit

/-- `[a-z0-9-]`. -/
def logCharacter (c : Char) : Bool := c.isLower || c.isDigit || c == '-'

/-- `[A-Z0-9_]`. -/
def kindCharacter (c : Char) : Bool := c.isUpper || c.isDigit || c == '_'

/-- `SAFE_KIND_PATTERN`. -/
def safeKindPattern : Regex := .seq (.char kindCharacter) (.atMost 99 (.char kindCharacter))

/-- `SAFE_YEAR_PATTERN`. -/
def safeYearPattern : Regex := .times 4 asciiDigit

/-- `SAFE_LOG_FILENAME_PATTERN`. -/
def safeLogFilenamePattern : Regex :=
  .cat [.char logCharacter, .atMost 119 (.char logCharacter), .exact "-", .times 6 asciiDigit,
    .exact ".log"]

/-- `job-[0-9][0-9][0-9][0-9][0-9][0-9]-*`, the pattern of both `cleanup_temporary_artifacts`. -/
def temporaryDirectoryPattern : Regex :=
  .cat [.exact "job-", .times 6 asciiDigit, .exact "-", .star (.char fun _ => true)]

/-- `[0-9a-f]`. -/
def isHex (c : Char) : Bool := ('0' ≤ c && c ≤ '9') || ('a' ≤ c && c ≤ 'f')

/-- `REMOTE_TEMP_PATTERN`. -/
def remoteTempPattern : Regex :=
  .cat [.exact ".palworld-manager-upload-j", .atLeast 6 (.char isDecimal), .exact "-",
    .times 32 (.char isHex), .exact ".partial"]

/-- What the log store raises. -/
inductive LogError where
  | invalidIdentity
  | invalidReference
  | symbolicLink
  deriving DecidableEq, Repr

/-- `Path(path).parts`. -/
def referenceParts (path : String) : List String :=
  if path.toList.head? = some '/' then "/" :: pathParts path else pathParts path

/-- `_resolve`, of the components of a path, on a disk with these symbolic links. -/
def resolveLog (isSymlink : List String → Bool) : List String → Except LogError (List String)
  | [jobs, year, name] =>
      if jobs ≠ "jobs" ∨ safeYearPattern.fullmatch year.toList = false ∨
          safeLogFilenamePattern.fullmatch name.toList = false then
        .error .invalidReference
      else if isSymlink [jobs] ∨ isSymlink [jobs, year] then .error .symbolicLink
      else .ok [jobs, year, name]
  | _ => .error .invalidReference

/-- `f"{kind.lower().replace('_', '-')}-{job_id:06d}.log"`. -/
def logFilename (kind : String) (j : ℕ) : String :=
  String.ofList ((kind.toList.map Char.toLower).map fun c => if c = '_' then '-' else c) ++ "-" ++
    pad6 j ++ ".log"

/-- The path that `FileJobLogStore.create` returns. -/
def createLogPath (isSymlink : List String → Bool) (j : ℕ) (kind : String) (occurredAt : Date) :
    Except LogError String := do
  if j = 0 ∨ safeKindPattern.fullmatch kind.toList = false then .error .invalidIdentity
  else
    let year := String.ofList (fixedDigits 4 occurredAt.year)
    let name := logFilename kind j
    let _ ← resolveLog isSymlink ["jobs", year, name]
    pure ("jobs/" ++ year ++ "/" ++ name)

/-- The working directory of `LocalBackupService.create`, with what `mkdtemp` appends. -/
def backupTemporaryName (j : ℕ) (backupId : String) (suffix : List Char) : String :=
  "job-" ++ pad6 j ++ "-" ++ backupId ++ "-" ++ String.ofList suffix

/-- The working directory of `download_temporary`. -/
def downloadTemporaryName (j : ℕ) (suffix : List Char) : String :=
  "job-" ++ pad6 j ++ "-" ++ String.ofList suffix

/-- The temporary name of `RcloneGoogleDriveStorage.upload`. -/
def remoteTemporaryName (j : ℕ) (hex : String) : String :=
  ".palworld-manager-upload-j" ++ pad6 j ++ "-" ++ hex ++ ".partial"

/-- The id that `cleanup_interrupted_uploads` reads from a remote name. -/
def remoteTempJobId (filename : String) : Option ℕ :=
  if remoteTempPattern.fullmatch filename.toList then
    some (digitsValue (((filename.toList.drop ".palworld-manager-upload-j".length).takeWhile
      isDecimal).map Point.ofChar))
  else none

end Model

section Digits

variable {j n : ℕ}

/-- A digit that is written is a digit. -/
theorem isDigit_digit (n : ℕ) : (digit n).isDigit = true := by
  have hall : ∀ k < 10, (Nat.digitChar k).isDigit = true := by decide
  exact hall _ (Nat.mod_lt _ (by decide))

/-- A digit is a decimal character. -/
theorem isDecimal_of_isDigit {c : Char} (h : c.isDigit = true) : isDecimal c = true := by
  obtain ⟨hlow, hhigh⟩ := isDigit_iff.mp h
  refine List.any_eq_true.mpr ⟨48, by decide, ?_⟩
  simp only [Bool.and_eq_true, decide_eq_true_eq]
  omega

/-- A number of fixed width has that width. -/
theorem length_fixedDigits (width n : ℕ) : (fixedDigits width n).length = width := by
  induction width generalizing n with
  | zero => rfl
  | succ width ih => rw [fixedDigits, List.length_append, ih, List.length_singleton]

/-- It is written in digits. -/
theorem isDigit_of_mem_fixedDigits {width : ℕ} : ∀ c ∈ fixedDigits width n, c.isDigit = true := by
  induction width generalizing n with
  | zero => exact fun c hc => absurd hc List.not_mem_nil
  | succ width ih =>
    intro c hc
    rw [fixedDigits, List.mem_append, List.mem_singleton] at hc
    obtain hc | rfl := hc
    · exact ih c hc
    · exact isDigit_digit n

/-- An identifier is written with zeros before it. -/
theorem toList_pad6 (j : ℕ) :
    (pad6 j).toList = List.replicate (6 - (Nat.toDigits 10 j).length) '0' ++ Nat.toDigits 10 j := by
  simp [pad6, String.toList_append, ← String.length_toList]

/-- It is written in digits. -/
theorem isDigit_of_mem_pad6 : ∀ c ∈ (pad6 j).toList, c.isDigit = true := by
  intro c hc
  rw [toList_pad6, List.mem_append] at hc
  obtain hc | hc := hc
  · rw [List.eq_of_mem_replicate hc]
    rfl
  · exact Nat.isDigit_of_mem_toDigits (by decide) (by decide) hc

/-- It has six digits at least. -/
theorem length_pad6_ge : 6 ≤ (pad6 j).toList.length := by
  rw [toList_pad6, List.length_append, List.length_replicate]
  omega

/-- Six digits suffice for the ids below a million. -/
theorem length_pad6_le_iff : (pad6 j).toList.length ≤ 6 ↔ j ≤ 999999 := by
  have hlength := Nat.length_toDigits_le_iff (n := j) (show 1 < 10 by decide) (show 0 < 6 by decide)
  rw [toList_pad6, List.length_append, List.length_replicate]
  omega

/-- The id is read again from its digits. -/
theorem digitsValue_pad6 (j : ℕ) : digitsValue ((pad6 j).toList.map Point.ofChar) = j := by
  rw [digitsValue_eq_ofDigitChars isDigit_of_mem_pad6, toList_pad6, Nat.ofDigitChars_append,
    Nat.ofDigitChars_replicate_zero, Nat.mul_zero, Nat.ofDigitChars_ten_toDigits]

/-- A number in base sixteen is written in hexadecimal digits. -/
theorem isHex_of_mem_toDigits (n : ℕ) : ∀ c ∈ Nat.toDigits 16 n, isHex c = true := by
  have hall : ∀ k < 16, isHex (Nat.digitChar k) = true := by decide
  induction n using Nat.strong_induction_on with
  | _ n ih =>
    rw [Nat.toDigits_eq_if (by decide)]
    split_ifs with hlt
    · intro c hc
      rw [List.mem_singleton] at hc
      exact hc ▸ hall n hlt
    · intro c hc
      rw [List.mem_append, List.mem_singleton] at hc
      obtain hc | rfl := hc
      · exact ih _ (by omega) c hc
      · exact hall _ (Nat.mod_lt _ (by decide))

/-- So is a UUID. -/
theorem isHex_of_mem_hex {u : Uuid} : ∀ c ∈ u.hex.toList, isHex c = true := by
  intro c hc
  simp only [Uuid.hex, String.toList_ofList, List.mem_append] at hc
  obtain hc | hc := hc
  · rw [List.eq_of_mem_replicate hc]
    rfl
  · exact isHex_of_mem_toDigits _ c hc

/-- A UUID has 32 of them. -/
theorem length_hex (u : Uuid) : u.hex.toList.length = 32 := by
  have hlength := (Nat.length_toDigits_le_iff (n := u.val) (show 1 < 16 by decide)
    (show 0 < 32 by decide)).mpr (u.isLt.trans_le (by decide))
  simp only [Uuid.hex, String.toList_ofList, List.length_append, List.length_replicate]
  omega

end Digits

section Recognised

variable {j : ℕ} {kind : String}

/-- Digits and a hyphen do not start with six digits and a hyphen if there are more than six. -/
theorem six_of_prefixed {digits six rest rest' : List Char} (hdigits : ∀ c ∈ digits, c.isDigit = true)
    (hsix : six.length = 6)
    (h : digits ++ '-' :: rest = six ++ '-' :: rest') : digits.length ≤ 6 := by
  by_contra hlt
  have hnext : digits[6]? = (digits ++ '-' :: rest)[6]? :=
    (List.getElem?_append_left (by omega)).symm
  rw [h, List.getElem?_append_right (by omega), hsix] at hnext
  exact absurd (hdigits _ (List.mem_of_getElem? hnext)) (by decide)

/-- The same from the end of the text. -/
theorem six_of_suffix {digits six rest rest' : List Char} (hdigits : ∀ c ∈ digits, c.isDigit = true)
    (hsix : six.length = 6)
    (h : rest ++ '-' :: digits = rest' ++ '-' :: six) : digits.length ≤ 6 := by
  have hreverse := congrArg List.reverse h
  simp only [List.reverse_append, List.reverse_cons, List.append_assoc, List.singleton_append]
    at hreverse
  rw [← List.length_reverse]
  refine six_of_prefixed (fun c hc => hdigits c (List.mem_reverse.mp hc)) ?_ hreverse
  rwa [List.length_reverse]

/-- A name of a temporary directory: the id in six digits. -/
theorem temporaryDirectoryPattern_iff {name : String} (rest : List Char)
    (hname : name.toList = "job-".toList ++ ((pad6 j).toList ++ '-' :: rest)) :
    temporaryDirectoryPattern.fullmatch name.toList = true ↔ j ≤ 999999 := by
  rw [Regex.fullmatch_iff (by rfl), temporaryDirectoryPattern, hname]
  simp only [Regex.matches_cat_cons, Regex.matches_cat_nil, Regex.matches_exact_iff, asciiDigit,
    Regex.matches_times_char_iff]
  constructor
  · rintro ⟨_, _, rfl, ⟨six, _, ⟨hsix, -⟩, ⟨_, _, rfl, -, rfl⟩, rfl⟩, htext⟩
    exact length_pad6_le_iff.mp
      (six_of_prefixed isDigit_of_mem_pad6 hsix (List.append_cancel_left htext))
  · intro hj
    have hlength := le_antisymm (length_pad6_le_iff.mpr hj) length_pad6_ge
    refine ⟨_, _, rfl, ⟨_, '-' :: rest, ⟨hlength, isDigit_of_mem_pad6⟩,
      ⟨['-'], rest, rfl, ⟨rest, [], ?_, rfl, ?_⟩, rfl⟩, rfl⟩, rfl⟩
    · exact Regex.matches_star_char_iff.mpr fun _ _ => rfl
    · exact (List.append_nil rest).symm

/-- The temporary directory of a backup is recognised up to six digits. -/
theorem backupTemporaryName_iff {backupId : String} {suffix : List Char} :
    temporaryDirectoryPattern.fullmatch (backupTemporaryName j backupId suffix).toList = true ↔
      j ≤ 999999 :=
  temporaryDirectoryPattern_iff (backupId.toList ++ '-' :: suffix) (by
    simp [backupTemporaryName, String.toList_append])

/-- So is that of a download. -/
theorem downloadTemporaryName_iff {suffix : List Char} :
    temporaryDirectoryPattern.fullmatch (downloadTemporaryName j suffix).toList = true ↔
      j ≤ 999999 :=
  temporaryDirectoryPattern_iff suffix (by
    simp [downloadTemporaryName, String.toList_append])

/-- The kind as the name of a log has it. -/
def logStem (kind : String) : List Char :=
  (kind.toList.map Char.toLower).map fun c => if c = '_' then '-' else c

/-- The parts of the name of a log. -/
theorem toList_logFilename :
    (logFilename kind j).toList = logStem kind ++ '-' :: ((pad6 j).toList ++ ".log".toList) := by
  simp [logFilename, logStem, String.toList_append]

/-- The upper case letters of ASCII, by their codes. -/
theorem isUpper_iff {c : Char} : c.isUpper = true ↔ 65 ≤ c.toNat ∧ c.toNat ≤ 90 := by
  simp only [Char.isUpper, decide_eq_true_eq, ge_iff_le, UInt32.le_iff_toNat_le, Char.toNat]
  rfl

/-- A character of a kind is one of a log name, once in lower case. -/
theorem logCharacter_of_kindCharacter {c : Char} (h : kindCharacter c = true) :
    logCharacter (if c.toLower = '_' then '-' else c.toLower) = true := by
  have hall : ∀ n < 128, kindCharacter (Char.ofNat n) = true →
      logCharacter (if (Char.ofNat n).toLower = '_' then '-' else (Char.ofNat n).toLower) = true := by
    decide
  have hlt : c.toNat < 128 := by
    simp only [kindCharacter, Bool.or_eq_true, beq_iff_eq] at h
    obtain (h | h) | rfl := h
    · have := isUpper_iff.mp h
      omega
    · have := isDigit_iff.mp h
      omega
    · decide
  have hc := hall c.toNat hlt
  rw [Char.ofNat_toNat] at hc
  exact hc h

/-- The kind makes the first part of the name, of a length that is accepted. -/
theorem logStem_of_safeKind (h : safeKindPattern.fullmatch kind.toList = true) :
    1 ≤ (logStem kind).length ∧ (logStem kind).length ≤ 100 ∧
      ∀ c ∈ logStem kind, logCharacter c = true := by
  have hplain : safeKindPattern.Plain = true := by
    rw [safeKindPattern, Regex.Plain, Regex.plain_atMost 99 rfl, Regex.Plain, Bool.and_self]
  rw [Regex.fullmatch_iff hplain, safeKindPattern, Regex.matches_seq_iff] at h
  obtain ⟨u, v, hu, hv, hkind⟩ := h
  obtain ⟨c, hc, rfl⟩ := Regex.matches_char_iff.mp hu
  obtain ⟨hlength, hall⟩ := Regex.matches_atMost_char_iff.mp hv
  have hstem : (logStem kind).length = v.length + 1 := by simp [logStem, hkind]
  refine ⟨by omega, by omega, fun d hd => ?_⟩
  rw [logStem, hkind, List.map_map, List.mem_map] at hd
  obtain ⟨e, he, rfl⟩ := hd
  refine logCharacter_of_kindCharacter ?_
  obtain rfl | he := List.mem_cons.mp he
  · exact hc
  · exact hall e he

/-- The name of a log: the id in six digits. -/
theorem safeLogFilenamePattern_iff (h : safeKindPattern.fullmatch kind.toList = true) :
    safeLogFilenamePattern.fullmatch (logFilename kind j).toList = true ↔ j ≤ 999999 := by
  obtain ⟨hpos, hle, hstem⟩ := logStem_of_safeKind h
  have hplain : safeLogFilenamePattern.Plain = true := by
    have hstem : (Regex.atMost 119 (.char logCharacter)).Plain = true := Regex.plain_atMost 119 rfl
    rw [safeLogFilenamePattern, Regex.cat, List.foldr_cons, List.foldr_cons, Regex.Plain,
      Regex.Plain, Regex.Plain, hstem]
    rfl
  rw [Regex.fullmatch_iff hplain, safeLogFilenamePattern, toList_logFilename]
  simp only [Regex.matches_cat_cons, Regex.matches_cat_nil, Regex.matches_exact_iff, asciiDigit,
    Regex.matches_times_char_iff, Regex.matches_atMost_char_iff, Regex.matches_char_iff]
  constructor
  · rintro ⟨_, _, ⟨c, -, rfl⟩, ⟨u, _, -, ⟨_, _, rfl, ⟨six, _, ⟨hsix, -⟩, ⟨_, _, rfl, rfl, rfl⟩, rfl⟩,
      rfl⟩, rfl⟩, htext⟩
    have hcut : logStem kind ++ '-' :: (pad6 j).toList = (c :: u) ++ '-' :: six := by
      have hlog : (logStem kind ++ '-' :: (pad6 j).toList) ++ ".log".toList =
          ((c :: u) ++ '-' :: six) ++ ".log".toList := by simpa using htext
      exact List.append_cancel_right hlog
    exact length_pad6_le_iff.mp (six_of_suffix isDigit_of_mem_pad6 hsix hcut)
  · intro hj
    have hlength := le_antisymm (length_pad6_le_iff.mpr hj) length_pad6_ge
    obtain ⟨c, u, hcu⟩ := List.exists_cons_of_length_pos hpos
    rw [hcu] at hle hstem ⊢
    obtain ⟨hc, hu⟩ := List.forall_mem_cons.mp hstem
    rw [List.length_cons] at hle
    refine ⟨[c], _, ⟨c, hc, rfl⟩, ⟨u, _, ⟨by omega, hu⟩, ⟨['-'], _, rfl, ⟨_, _,
      ⟨hlength, isDigit_of_mem_pad6⟩, ⟨".log".toList, [], rfl, rfl, rfl⟩, rfl⟩, rfl⟩, rfl⟩, ?_⟩
    simp

/-- `/` stands in none of the parts, and none is empty or a dot. -/
theorem pathParts_three {one two three : String}
    (h : ∀ part ∈ [one, two, three], '/' ∉ part.toList ∧ part.toList ≠ [] ∧ part.toList ≠ ['.']) :
    pathParts (one ++ "/" ++ two ++ "/" ++ three) = [one, two, three] := by
  simp only [List.mem_cons, List.not_mem_nil, or_false, forall_eq_or_imp, forall_eq] at h
  obtain ⟨⟨hone, hone', hone''⟩, ⟨htwo, htwo', htwo''⟩, ⟨hthree, hthree', hthree''⟩⟩ := h
  have htext : (one ++ "/" ++ two ++ "/" ++ three).toList =
      one.toList ++ '/' :: (two.toList ++ '/' :: three.toList) := by
    simp [String.toList_append]
  rw [pathParts, htext, List.splitOn_append_cons_self_of_not_mem hone,
    List.splitOn_append_cons_self_of_not_mem htwo, List.splitOn_eq_singleton hthree]
  simp [*]

/-- No slash is a digit. -/
theorem not_mem_of_isDigit {t : List Char} (h : ∀ c ∈ t, c.isDigit = true) : '/' ∉ t :=
  fun hmem => absurd (h _ hmem) (by decide)

/-- The name of a log has no slash. -/
theorem not_mem_logFilename (h : safeKindPattern.fullmatch kind.toList = true) :
    '/' ∉ (logFilename kind j).toList := by
  rw [toList_logFilename]
  simp only [List.mem_append, List.mem_cons, not_or]
  refine ⟨fun hmem => ?_, by decide, not_mem_of_isDigit isDigit_of_mem_pad6, by decide⟩
  exact absurd ((logStem_of_safeKind h).2.2 _ hmem) (by decide)

/-- **The log of a job is found again if the id has six digits,** and only then. -/
theorem createLogPath_iff (hj : 0 < j) (h : safeKindPattern.fullmatch kind.toList = true)
    (occurredAt : Date) :
    (∀ isSymlink, (∀ directory, isSymlink directory = false) →
      ∃ path, createLogPath isSymlink j kind occurredAt = .ok path ∧
        resolveLog isSymlink (referenceParts path) = .ok (referenceParts path)) ↔ j ≤ 999999 := by
  have hidentity : ¬(j = 0 ∨ safeKindPattern.fullmatch kind.toList = false) := by
    rw [h]
    simp only [Bool.true_eq_false, or_false]
    omega
  have hyear : safeYearPattern.fullmatch (fixedDigits 4 occurredAt.year) = true :=
    (Regex.fullmatch_iff (by rfl)).mpr (Regex.matches_times_char_iff.mpr
      ⟨length_fixedDigits 4 _, isDigit_of_mem_fixedDigits⟩)
  constructor
  · intro hall
    obtain ⟨path, hpath, -⟩ := hall (fun _ => false) fun _ => rfl
    rw [createLogPath, if_neg hidentity] at hpath
    obtain ⟨parts, hresolve, -⟩ := except_bind_eq_ok.mp hpath
    rw [resolveLog] at hresolve
    split_ifs at hresolve with hrefused
    rw [not_or, not_or, Bool.not_eq_false] at hrefused
    exact (safeLogFilenamePattern_iff h).mp ((Bool.not_eq_false _).mp hrefused.2.2)
  · intro hle isSymlink hlinks
    have hname := (safeLogFilenamePattern_iff (j := j) h).mpr hle
    have hresolve : resolveLog isSymlink ["jobs", String.ofList (fixedDigits 4 occurredAt.year),
        logFilename kind j] = .ok ["jobs", String.ofList (fixedDigits 4 occurredAt.year),
          logFilename kind j] := by
      rw [resolveLog, if_neg (by simp [hyear, hname]), if_neg (by simp [hlinks])]
    have hparts : referenceParts ("jobs/" ++ String.ofList (fixedDigits 4 occurredAt.year) ++ "/" ++
        logFilename kind j) = ["jobs", String.ofList (fixedDigits 4 occurredAt.year),
          logFilename kind j] := by
      rw [referenceParts, if_neg (by simp [String.toList_append]),
        show "jobs/" = "jobs" ++ "/" from rfl, pathParts_three]
      simp only [List.mem_cons, List.not_mem_nil, or_false, forall_eq_or_imp, forall_eq,
        String.toList_ofList]
      refine ⟨by decide, ⟨not_mem_of_isDigit isDigit_of_mem_fixedDigits, ?_, ?_⟩,
        not_mem_logFilename h, ?_, ?_⟩
      · exact List.ne_nil_of_length_pos (by simp [length_fixedDigits])
      · intro hdot
        have hlength := congrArg List.length hdot
        simp [length_fixedDigits] at hlength
      · rw [toList_logFilename]
        simp
      · intro hdot
        have hlength := congrArg List.length hdot
        simp [toList_logFilename] at hlength
        omega
    refine ⟨_, ?_, by rw [hparts, hresolve]⟩
    rw [createLogPath, if_neg hidentity]
    exact except_bind_eq_ok.mpr ⟨_, hresolve, rfl⟩

/-- A number of fixed width is written in decimal characters. -/
theorem isDecimal_of_mem_fixedDigits {width n : ℕ} : ∀ c ∈ fixedDigits width n, isDecimal c = true :=
  fun c hc => isDecimal_of_isDigit (isDigit_of_mem_fixedDigits c hc)

/-- So is an identifier. -/
theorem isDecimal_of_mem_pad6 : ∀ c ∈ (pad6 j).toList, isDecimal c = true :=
  fun c hc => isDecimal_of_isDigit (isDigit_of_mem_pad6 c hc)

/-- The digits of the date, and those of the time. -/
theorem toList_stamp (i : Instant) : ∃ date time : List Char, i.stamp.toList =
    date ++ 'T' :: (time ++ ['Z']) ∧ (date.length = 8 ∧ ∀ c ∈ date, isDecimal c = true) ∧
      time.length = 12 ∧ ∀ c ∈ time, isDecimal c = true := by
  let seconds := i.time.val / 1000000
  refine ⟨fixedDigits 4 i.date.year ++ fixedDigits 2 i.date.month ++ fixedDigits 2 i.date.day,
    fixedDigits 2 (seconds / 3600) ++ fixedDigits 2 (seconds / 60 % 60) ++
      fixedDigits 2 (seconds % 60) ++ fixedDigits 6 (i.time.val % 1000000), ?_, ⟨?_, ?_⟩, ?_, ?_⟩
  · rw [Instant.stamp, String.toList_ofList, List.append_assoc, List.cons_append]
  · simp [length_fixedDigits]
  · simp only [List.forall_mem_append]
    exact ⟨⟨isDecimal_of_mem_fixedDigits, isDecimal_of_mem_fixedDigits⟩,
      isDecimal_of_mem_fixedDigits⟩
  · simp [length_fixedDigits]
  · simp only [List.forall_mem_append]
    exact ⟨⟨⟨isDecimal_of_mem_fixedDigits, isDecimal_of_mem_fixedDigits⟩,
      isDecimal_of_mem_fixedDigits⟩, isDecimal_of_mem_fixedDigits⟩

/-- A literal matches itself. -/
theorem matches_exact (s : String) : (Regex.exact s).Matches s.toList :=
  Regex.matches_exact_iff.mpr rfl

/-- A hyphen, the hexadecimal digits and an ending. -/
theorem matches_hex_tail (u : Uuid) (ending : String) :
    (Regex.cat [.exact "-", .times 32 (.char isHex), .exact ending]).Matches
      ("-".toList ++ (u.hex.toList ++ (ending.toList ++ []))) := by
  refine .cons (matches_exact _) (.cons ?_ (.cons (matches_exact _) .empty))
  exact Regex.matches_times_char_iff.mpr ⟨length_hex u, isHex_of_mem_hex⟩

/-- An identifier is six digits or more. -/
theorem matches_pad6 (j : ℕ) : (Regex.atLeast 6 (.char isDecimal)).Matches (pad6 j).toList :=
  Regex.matches_atLeast_char_iff.mpr ⟨length_pad6_ge, isDecimal_of_mem_pad6⟩

/-- The pattern of the names of backups, part by part. -/
theorem backupFilenamePattern_eq : backupFilenamePattern =
    .cat [.exact "palworld-manager-backup-", .times 8 (.char isDecimal), .exact "T",
      .times 12 (.char isDecimal), .exact "Z-j", .atLeast 6 (.char isDecimal), .exact "-",
      .times 32 (.char isHex), .exact ".tar.gz"] := rfl

/-- The name of an archive is that of a managed backup, whatever the id. -/
theorem isBackupFilename_backupFilename (i : Instant) (u : Uuid) (createdAt : ℕ) :
    isBackupFilename (backupFilename ⟨createdAt, i.stamp, u.hex⟩ j) = true := by
  obtain ⟨date, time, hstamp, hdate, htime⟩ := toList_stamp i
  have htext : (backupFilename ⟨createdAt, i.stamp, u.hex⟩ j).toList =
      "palworld-manager-backup-".toList ++ (date ++ ("T".toList ++ (time ++ ("Z-j".toList ++
        ((pad6 j).toList ++ ("-".toList ++ (u.hex.toList ++ (".tar.gz".toList ++ [])))))))) := by
    have hT : "T".toList = ['T'] := rfl
    have hZ : "Z-j".toList = ['Z'] ++ "-j".toList := rfl
    change ("palworld-manager-backup-" ++ i.stamp ++ "-j" ++ pad6 j ++ "-" ++ u.hex ++
      ".tar.gz").toList = _
    simp only [String.toList_append, hstamp, hT, hZ, List.append_assoc, List.append_nil,
      List.cons_append, List.nil_append]
  rw [isBackupFilename, Regex.fullmatch_iff (by decide), backupFilenamePattern_eq, htext]
  refine .cons (matches_exact _) (.cons (Regex.matches_times_char_iff.mpr hdate) ?_)
  refine .cons (matches_exact _) (.cons (Regex.matches_times_char_iff.mpr htime) ?_)
  exact .cons (matches_exact _) (.cons (matches_pad6 j) (matches_hex_tail u ".tar.gz"))

/-- The remote temporary name tells the id, whatever it is. -/
theorem remoteTempJobId_remoteTemporaryName (u : Uuid) :
    remoteTempJobId (remoteTemporaryName j u.hex) = some j := by
  have htext : (remoteTemporaryName j u.hex).toList = ".palworld-manager-upload-j".toList ++
      ((pad6 j).toList ++ ("-".toList ++ (u.hex.toList ++ (".partial".toList ++ [])))) := by
    change (".palworld-manager-upload-j" ++ pad6 j ++ "-" ++ u.hex ++ ".partial").toList = _
    simp only [String.toList_append, List.append_assoc, List.append_nil]
  have hmatch : remoteTempPattern.fullmatch (remoteTemporaryName j u.hex).toList = true := by
    rw [Regex.fullmatch_iff (by decide), remoteTempPattern, htext]
    exact .cons (matches_exact _) (.cons (matches_pad6 j) (matches_hex_tail u ".partial"))
  have hgroup : ((remoteTemporaryName j u.hex).toList.drop
      ".palworld-manager-upload-j".length).takeWhile isDecimal = (pad6 j).toList := by
    rw [htext, ← String.length_toList, List.drop_left,
      List.takeWhile_append_of_pos isDecimal_of_mem_pad6]
    change _ ++ (('-' :: _ : List Char).takeWhile isDecimal) = _
    rw [List.takeWhile_cons_of_neg (by decide), List.append_nil]
  rw [remoteTempJobId, if_pos hmatch, hgroup, digitsValue_pad6]

/-- Each name with the id of a job is recognised by the code that looks for it. -/
structure NamesRecognised (j : ℕ) (kind : String) (i : Instant) (u : Uuid) (suffix : List Char) :
    Prop where
  log : ∀ isSymlink, (∀ directory, isSymlink directory = false) →
    ∃ path, createLogPath isSymlink j kind i.date = .ok path ∧
      resolveLog isSymlink (referenceParts path) = .ok (referenceParts path)
  backupDirectory :
    temporaryDirectoryPattern.fullmatch (backupTemporaryName j u.hex suffix).toList = true
  downloadDirectory :
    temporaryDirectoryPattern.fullmatch (downloadTemporaryName j suffix).toList = true
  archive : ∀ createdAt, isBackupFilename (backupFilename ⟨createdAt, i.stamp, u.hex⟩ j) = true
  remote : remoteTempJobId (remoteTemporaryName j u.hex) = some j

/-- **The names are recognised as long as the id has six digits,** and only so long. -/
theorem namesRecognised_iff (hj : 0 < j) (h : safeKindPattern.fullmatch kind.toList = true)
    (i : Instant) (u : Uuid) (suffix : List Char) :
    NamesRecognised j kind i u suffix ↔ j ≤ 999999 := by
  constructor
  · exact fun hall => downloadTemporaryName_iff.mp hall.downloadDirectory
  · intro hle
    exact
      { log := (createLogPath_iff hj h i.date).mpr hle
        backupDirectory := backupTemporaryName_iff.mpr hle
        downloadDirectory := downloadTemporaryName_iff.mpr hle
        archive := isBackupFilename_backupFilename i u
        remote := remoteTempJobId_remoteTemporaryName u }

/-- The last id of six digits. -/
theorem namesRecognised_iff_last :
    NamesRecognised 999999 "LOCAL_BACKUP" ⟨⟨2026, 1, 31, by decide, by decide, by decide⟩, 0⟩ 7
      "k3_w9xq0".toList ↔ 999999 ≤ 999999 :=
  namesRecognised_iff (by decide) (by decide) _ _ _

/-- The first id of seven digits: no log, and directories that stay. -/
theorem namesRecognised_million :
    safeKindPattern.fullmatch "LOCAL_BACKUP".toList = true ∧
      ∀ i u suffix, ¬NamesRecognised 1000000 "LOCAL_BACKUP" i u suffix := by
  refine ⟨by decide, fun i u suffix h => ?_⟩
  exact absurd (downloadTemporaryName_iff.mp h.downloadDirectory) (by decide)

end Recognised

end PalworldManager
