/-
# The names in an archive

`validate_archive_path` (`backups/manifest.py`) is the gate for the names of an archive that
nobody vouches for.  It lets a path library do the splitting: a name is kept if it is what its
path is written as.  The single dot is, and has no components that could be refused, so of
all texts outside the grammar (`IsArchivePath`) it is the one that passes
(`validateArchivePath_iff`).
-/

import PalworldManager.Text.PosixPath
import PalworldManager.Text.Utf8

namespace PalworldManager

open Text

/-- `BackupValidationError`, with its message. -/
structure BackupValidationError where
  message : String
  deriving DecidableEq, Repr

/-- `MAX_ARCHIVE_PATH_BYTES`. -/
def maxArchivePathBytes : ℕ := 4096

/-- What `validate_archive_path` raises. -/
def invalidArchivePath : BackupValidationError := ⟨"path de backup inválido"⟩

/-- A letter and a colon at the start of a name; `str.isalpha` of a code point is what the
database of Unicode says. -/
def hasDrive (isAlpha : Point → Bool) : Str → Bool
  | c :: d :: _ => isAlpha c && d == .ofChar ':'
  | _ => false

/-- `ord(character) < 32 or ord(character) == 127`. -/
def isControl (c : Point) : Bool := c.val < 32 || c.val == 127

/-- `validate_archive_path`. -/
def validateArchivePath (isAlpha : Point → Bool) (value : Str) : Except BackupValidationError Unit :=
  match encodeUtf8 value with
  | none => .error invalidArchivePath
  | some encodedPath =>
      let path := PosixPath.ofStr value
      if value = [] ∨ maxArchivePathBytes < encodedPath.size ∨ backslash ∈ value ∨
          path.isAbsolute = true ∨ value ≠ path.asPosix ∨ hasDrive isAlpha value = true ∨
          value.any isControl = true then
        .error invalidArchivePath
      else if path.parts.any (fun part => part ∈ [[], [dot], [dot, dot]]) = true then
        .error invalidArchivePath
      else
        .ok ()

/-- The grammar of a name: so many bytes of UTF-8 without backslashes, control characters and
a drive, whose components between slashes are names. -/
structure IsArchivePath (isAlpha : Point → Bool) (value : Str) : Prop where
  bytes : ∃ encoded, encodeUtf8 value = some encoded ∧ 1 ≤ encoded.size ∧ encoded.size ≤ 4096
  characters : ∀ c ∈ value, c ≠ backslash ∧ ¬c.val < 32 ∧ c.val ≠ 127
  drive : ¬∃ c rest, value = c :: .ofChar ':' :: rest ∧ isAlpha c = true
  components : ∀ part ∈ value.splitOn slash, part ≠ [] ∧ part ≠ [dot] ∧ part ≠ [dot, dot]

variable {isAlpha : Point → Bool} {value : Str}

/-- A path has a drive if it starts with a letter and a colon. -/
theorem hasDrive_eq_true :
    hasDrive isAlpha value = true ↔ ∃ c rest, value = c :: .ofChar ':' :: rest ∧ isAlpha c = true := by
  constructor
  · intro h
    unfold hasDrive at h
    split at h
    · rename_i c d rest
      obtain ⟨halpha, hcolon⟩ := (Bool.and_eq_true _ _).mp h
      exact ⟨c, rest, by rw [eq_of_beq hcolon], halpha⟩
    · cases h
  · rintro ⟨c, rest, rfl, halpha⟩
    simp [hasDrive, halpha]

/-- Only the empty text has no bytes. -/
theorem size_pos_of_encodeUtf8 {encoded : ByteArray} (h : encodeUtf8 value = some encoded)
    (hvalue : value ≠ []) : 1 ≤ encoded.size := by
  by_contra hsize
  have hempty : encoded = .empty := ByteArray.size_eq_zero_iff.mp (by omega)
  have hdecode := decodeUtf8_of_encodeUtf8 h
  rw [hempty] at hdecode
  obtain rfl : [] = value := Option.some.inj hdecode
  exact hvalue rfl

/-- A name without a component that is empty is no absolute path. -/
theorem relative_of_components (h : ∀ part ∈ value.splitOn slash, part ≠ []) :
    value.head? ≠ some slash := by
  intro hhead
  obtain ⟨rest, rfl⟩ := List.head?_eq_some_iff.mp hhead
  refine h [] ?_ rfl
  rw [List.splitOn_cons_eq_if_modifyHead]
  simp

/-- What passes the gate, in terms of the text. -/
theorem validateArchivePath_eq_ok :
    validateArchivePath isAlpha value = .ok () ↔
      (∃ encoded, encodeUtf8 value = some encoded ∧ encoded.size ≤ 4096) ∧ value ≠ [] ∧
        (∀ c ∈ value, c ≠ backslash ∧ ¬c.val < 32 ∧ c.val ≠ 127) ∧
        (¬∃ c rest, value = c :: .ofChar ':' :: rest ∧ isAlpha c = true) ∧
        (value = [dot] ∨
          ∀ part ∈ value.splitOn slash, part ≠ [] ∧ part ≠ [dot] ∧ part ≠ [dot, dot]) := by
  have hcontrol : value.any isControl = true ↔ ∃ c ∈ value, c.val < 32 ∨ c.val = 127 := by
    simp [isControl]
  have hdotted (parts : List Str) :
      parts.any (fun part => part ∈ [[], [dot], [dot, dot]]) = true ↔
        ∃ part ∈ parts, part = [] ∨ part = [dot] ∨ part = [dot, dot] := by
    simp
  unfold validateArchivePath
  cases hencoded : encodeUtf8 value with
  | none => simp
  | some encoded =>
    dsimp only
    constructor
    · intro h
      split_ifs at h with hbad hparts
      simp only [not_or] at hbad
      obtain ⟨hvalue, hsize, hbackslash, habsolute, hposix, hdrive, hchars⟩ := hbad
      have hrelative := mt (PosixPath.isAbsolute_ofStr value).mpr habsolute
      refine ⟨⟨encoded, rfl, Nat.not_lt.mp hsize⟩, hvalue, fun c hc => ?_, ?_, ?_⟩
      · have hc' : ¬(c.val < 32 ∨ c.val = 127) := fun h => hchars (hcontrol.mpr ⟨c, hc, h⟩)
        exact ⟨fun heq => hbackslash (heq ▸ hc), not_or.mp hc'⟩
      · exact mt hasDrive_eq_true.mpr hdrive
      · rcases (PosixPath.asPosix_ofStr hrelative).mp (not_not.mp hposix).symm with hone | hall
        · exact .inl hone
        · refine .inr fun part hpart => ?_
          rw [PosixPath.parts_ofStr hrelative hall, hdotted] at hparts
          exact ⟨(hall part hpart).1, (hall part hpart).2, fun h => hparts ⟨part, hpart, .inr (.inr h)⟩⟩
    · rintro ⟨⟨encoded', hsame, hsize⟩, hvalue, hcharacters, hdrive, hcomponents⟩
      obtain rfl : encoded = encoded' := Option.some.inj hsame
      have hnamed : value = [dot] ∨ ∀ part ∈ value.splitOn slash, part ≠ [] ∧ part ≠ [dot] :=
        hcomponents.imp_right fun hall part hpart => ⟨(hall part hpart).1, (hall part hpart).2.1⟩
      have hrelative : value.head? ≠ some slash := by
        rcases hnamed with rfl | hall
        · decide
        · exact relative_of_components fun part hpart => (hall part hpart).1
      rw [if_neg, if_neg]
      · rw [hdotted]
        rintro ⟨part, hpart, hbad⟩
        rcases hcomponents with rfl | hall
        · have hnone : (PosixPath.ofStr [dot]).parts = [] := by decide
          rw [hnone] at hpart
          cases hpart
        · rw [PosixPath.parts_ofStr hrelative (hnamed.resolve_left ?_)] at hpart
          · obtain ⟨h₁, h₂, h₃⟩ := hall part hpart
            exact hbad.elim h₁ fun hbad => hbad.elim h₂ h₃
          · rintro rfl
            exact (hall [dot] (by decide)).2.1 rfl
      · rintro (h | h | h | h | h | h | h)
        · exact hvalue h
        · exact absurd h (Nat.not_lt.mpr hsize)
        · exact (hcharacters _ h).1 rfl
        · exact hrelative ((PosixPath.isAbsolute_ofStr value).mp h)
        · exact h ((PosixPath.asPosix_ofStr hrelative).mpr hnamed).symm
        · exact hdrive (hasDrive_eq_true.mp h)
        · obtain ⟨c, hc, hcode⟩ := hcontrol.mp h
          exact hcode.elim (hcharacters c hc).2.1 (hcharacters c hc).2.2

/-- **The gate keeps the grammar** for every text but the single dot. -/
theorem validateArchivePath_iff (isAlpha : Point → Bool) (value : Str) :
    (validateArchivePath isAlpha value = .ok () ↔ IsArchivePath isAlpha value) ↔
      value ≠ str "." := by
  have hdot : str "." = [dot] := rfl
  rw [validateArchivePath_eq_ok, hdot]
  constructor
  · rintro hiff rfl
    have hpath : IsArchivePath isAlpha [dot] := by
      refine hiff.mp ⟨⟨⟨#[46]⟩, by decide, by decide⟩, by simp, ?_, ?_, .inl rfl⟩
      · simp only [List.mem_singleton, forall_eq]
        decide
      · rintro ⟨c, rest, hvalue, -⟩
        simp at hvalue
    exact (hpath.components [dot] (by decide)).2.1 rfl
  · intro hne
    constructor
    · rintro ⟨⟨encoded, hencoded, hsize⟩, hvalue, hcharacters, hdrive, hcomponents⟩
      exact ⟨⟨encoded, hencoded, size_pos_of_encodeUtf8 hencoded hvalue, hsize⟩, hcharacters, hdrive,
        hcomponents.resolve_left hne⟩
    · intro h
      obtain ⟨encoded, hencoded, hpos, hsize⟩ := h.bytes
      refine ⟨⟨encoded, hencoded, hsize⟩, ?_, h.characters, h.drive, .inr h.components⟩
      rintro rfl
      exact (h.components [] (by decide)).1 rfl

/-- The path of a single dot is accepted, and is no path of an archive. -/
theorem validateArchivePath_dot :
    ¬∀ isAlpha value, validateArchivePath isAlpha value = .ok () ↔ IsArchivePath isAlpha value := by
  intro h
  have hpath : IsArchivePath (fun _ => false) (str ".") := (h _ _).mp (by decide)
  exact (hpath.components [dot] (by decide)).2.1 rfl

end PalworldManager
