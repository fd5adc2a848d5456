/-
# Names of backups

The file name of a local backup (`backups/service.py`), the pattern that tells a
managed backup from any other file, and the paths that records keep.
-/

import PalworldManager.Jobs.Model
import PalworldManager.Text.Regex

namespace PalworldManager

open Text

/-- `BACKUP_FILENAME_PATTERN`. -/
def backupFilenamePattern : Regex :=
  let digit := Regex.char isDecimal
  let hex := Regex.char fun c => ('0' ≤ c && c ≤ '9') || ('a' ≤ c && c ≤ 'f')
  .cat [.exact "palworld-manager-backup-", .times 8 digit, .exact "T", .times 12 digit,
    .exact "Z-j", .atLeast 6 digit, .exact "-", .times 32 hex, .exact ".tar.gz"]

/-- `BACKUP_FILENAME_PATTERN.fullmatch(filename) is not None`. -/
def isBackupFilename (filename : String) : Bool :=
  backupFilenamePattern.fullmatch filename.toList

/-- `f"{n:06d}"`. -/
def pad6 (n : ℕ) : String :=
  let digits := toString n
  String.ofList (List.replicate (6 - digits.length) '0') ++ digits

/-- `f"backups/{filename}"`. -/
def localStoragePath (filename : String) : String := "backups/" ++ filename

/-- `Path(path).parts` of a relative path. -/
def pathParts (path : String) : List String :=
  ((path.toList.splitOn '/').filter fun part => part ≠ [] ∧ part ≠ ['.']).map String.ofList

/-- The checks that `resolve_managed_artifact` makes on the text of a path: it
is relative, with two components, the backup directory and a managed name. -/
def isManagedPath (path : String) : Bool :=
  path.toList.head? ≠ some '/' &&
    match pathParts path with
    | [directory, filename] => directory == "backups" && isBackupFilename filename
    | _ => false

/-- No managed name has a separator in it. -/
theorem not_mem_of_isBackupFilename {filename : String} (h : isBackupFilename filename = true) :
    '/' ∉ filename.toList := by
  have hdigit : (Regex.char isDecimal).Within (· ≠ '/') := by
    refine Regex.within_char ?_
    rintro c hc rfl
    exact absurd hc (by decide)
  have hhex : (Regex.char fun c => ('0' ≤ c && c ≤ '9') || ('a' ≤ c && c ≤ 'f')).Within (· ≠ '/') := by
    refine Regex.within_char ?_
    rintro c hc rfl
    exact absurd hc (by decide)
  have hpattern : backupFilenamePattern.Within (· ≠ '/') := by
    have hexact (s : String) (hs : s.toList.all (· != '/') = true) :
        (Regex.exact s).Within (· ≠ '/') :=
      Regex.within_exact fun c hc => by simpa using List.all_eq_true.mp hs c hc
    rw [backupFilenamePattern]
    refine Regex.within_cat (List.forall_mem_cons.mpr ⟨hexact _ (by decide), ?_⟩)
    refine List.forall_mem_cons.mpr ⟨Regex.within_times 8 hdigit, ?_⟩
    refine List.forall_mem_cons.mpr ⟨hexact _ (by decide), ?_⟩
    refine List.forall_mem_cons.mpr ⟨Regex.within_times 12 hdigit, ?_⟩
    refine List.forall_mem_cons.mpr ⟨hexact _ (by decide), ?_⟩
    refine List.forall_mem_cons.mpr ⟨Regex.within_atLeast 6 hdigit, ?_⟩
    refine List.forall_mem_cons.mpr ⟨hexact _ (by decide), ?_⟩
    refine List.forall_mem_cons.mpr ⟨Regex.within_times 32 hhex, ?_⟩
    exact List.forall_mem_singleton.mpr (hexact _ (by decide))
  exact fun hmem => hpattern.of_fullmatch h _ hmem rfl

/-- The components of the path of a managed name. -/
theorem pathParts_localStoragePath {filename : String} (h : isBackupFilename filename = true) :
    pathParts (localStoragePath filename) = ["backups", filename] := by
  have hslash := not_mem_of_isBackupFilename h
  have hempty : filename.toList ≠ [] := by
    intro hnil
    rw [isBackupFilename, hnil] at h
    exact absurd h (by decide)
  have hdot : filename.toList ≠ ['.'] := by
    intro hdot
    rw [isBackupFilename, hdot] at h
    exact absurd h (by decide)
  have hsplit : (localStoragePath filename).toList.splitOn '/' =
      ["backups".toList, filename.toList] := by
    have htext : (localStoragePath filename).toList = "backups".toList ++ '/' :: filename.toList := by
      simp [localStoragePath, String.toList_append]
    rw [htext, List.splitOn_append_cons_self_of_not_mem (by decide),
      List.splitOn_eq_singleton hslash]
  simp [pathParts, hsplit, hempty, hdot]

/-- The path of a managed name is a managed path. -/
theorem isManagedPath_localStoragePath {filename : String} (h : isBackupFilename filename = true) :
    isManagedPath (localStoragePath filename) = true := by
  have hhead : (localStoragePath filename).toList.head? = some 'b' := by
    simp [localStoragePath, String.toList_append]
  simp [isManagedPath, pathParts_localStoragePath h, hhead, h]

/-- `_valid_record` (`backups/drive_jobs.py`). -/
def BackupRecord.validAt (record : BackupRecord) (location : Location) : Bool :=
  record.location == location && record.isValid && record.sha256.isSome &&
    record.sizeBytes.isSome && isBackupFilename record.filename &&
    record.storagePath == (match location with
      | .drive => record.filename
      | .local => localStoragePath record.filename)

example : isBackupFilename
    "palworld-manager-backup-20250101T040000000000Z-j000001-0123456789abcdef0123456789abcdef.tar.gz"
      = true := by
  decide

end PalworldManager
