/-
# The storage of the settings file

`palworld_settings/storage.py`: `FilePalworldSettingsStorage`, one question for each
call of the operating system, which answers whether the call raises.  The bytes of the
settings file are the state.  A file that is opened is read as it stood when it was
opened, since the manager never writes into it: it puts another one in its place.
-/

import PalworldManager.Effects.Exec
import PalworldManager.PalworldSettings.Ini
import PalworldManager.Text.Utf8

namespace PalworldManager

open Effects Text
open Effects.Exec hiding bind ask

/-- The bytes of `PalWorldSettings.ini`, if there is such a file. -/
abbrev SettingsFile := Option ByteArray

/-- `OSError`, by the classes that the storage tells apart. -/
inductive OsError where
  | fileNotFound | permission | other
  deriving DecidableEq, Repr

/-- `SettingsStorageErrorKind`. -/
inductive SettingsStorageErrorKind where
  | conflict | invalidFile | io | notFound | permission
  deriving DecidableEq, Repr

/-- The value of a `StrEnum`. -/
def SettingsStorageErrorKind.value : SettingsStorageErrorKind → String
  | .conflict => "conflict"
  | .invalidFile => "invalid_file"
  | .io => "io"
  | .notFound => "not_found"
  | .permission => "permission"

/-- What the storage and the service of the settings raise. -/
inductive SettingsError where
  | storage (kind : SettingsStorageErrorKind)
  | validation (message : String)
  | value (error : SettingValueError)
  | parse (error : IniParseError)
  | os (error : OsError)
  | unicodeEncode
  deriving DecidableEq, Repr

/-- The calls of the operating system of which nothing but success is asked. -/
inductive FileCall where
  | openFile | openExclusive | mkstemp | fdopen | fchmod | read | write | flush | fsync | close
  | replace | openDirectory | fsyncDirectory | closeDirectory | unlink
  deriving DecidableEq, Repr

/-- What `os.fstat` tells. -/
structure FileStat where
  isRegular : Bool
  mode : ℕ
  deriving DecidableEq, Repr

/-- The questions of the storage and of the service. -/
inductive SettingsCall where
  | file (call : FileCall)
  | isLink (parts : List String)
  | fstat
  | exists
  | clock
  deriving DecidableEq, Repr

/-- Their answers; the clock answers with the text that `strftime` gives. -/
def SettingsCall.Reply : SettingsCall → Type
  | .file _ => Option OsError
  | .isLink _ => Except OsError Bool
  | .fstat => Except OsError FileStat
  | .exists => Except OsError Bool
  | .clock => String

/-- `AUDIT_RESULT_SUCCESS` and `AUDIT_RESULT_FAILURE`. -/
inductive AuditResult where
  | success | failure
  deriving DecidableEq, Repr

/-- What `_audit` records. -/
structure SettingsAudit where
  occurredAt : String
  administratorUserId : ℕ
  result : AuditResult
  changedFields : List Str
  backupName : Option String
  errorKind : Option String
  deriving DecidableEq

/-- The labels of the steps. -/
inductive SettingsLabel where
  | opened
  | encode (content : Str)
  | replaced
  | audit (event : SettingsAudit)
  deriving DecidableEq

/-- A method of the storage or of the service. -/
abbrev SettingsM := Exec SettingsFile SettingsLabel SettingsCall SettingsCall.Reply SettingsError Unit

/-- A path: the parts of its parent, and its name. -/
structure SettingsPath where
  parent : List String
  name : String
  deriving DecidableEq, Repr

/-- `StoredSettings`. -/
structure StoredSettings where
  content : Str
  version : String
  deriving DecidableEq, Repr

/-- `MAX_INI_BYTES`. -/
def maxIniBytes : ℕ := 1024 * 1024

section Calls

/-- A question. -/
def settingsAsk (call : SettingsCall) : SettingsM call.Reply := Exec.ask call

/-- A call that may raise. -/
def fileCall (call : FileCall) : SettingsM Unit := do
  let answer ← settingsAsk (.file call)
  match (answer : Option OsError) with
  | none => pure ()
  | some error => raise (.os error)

/-- `os.fstat(file.fileno())`. -/
def fstat : SettingsM FileStat := do
  let answer ← settingsAsk .fstat
  match (answer : Except OsError FileStat) with
  | .ok fileStat => pure fileStat
  | .error error => raise (.os error)

/-- `temporary_path.exists()`. -/
def temporaryExists : SettingsM Bool := do
  let answer ← settingsAsk .exists
  match (answer : Except OsError Bool) with
  | .ok found => pure found
  | .error error => raise (.os error)

/-- One component of `_reject_symlink_components`. -/
def rejectSymlink (parts : List String) : SettingsM Unit := do
  let answer ← settingsAsk (.isLink parts)
  match (answer : Except OsError Bool) with
  | .ok isLink => raiseIf (isLink = true) (.storage .invalidFile)
  | .error .fileNotFound => pure ()
  | .error error => raise (.os error)

/-- `self._clock()`, as `strftime` prints it. -/
def clock : SettingsM String := settingsAsk .clock

/-- `with os.fdopen(descriptor) as file`. -/
def withFile {α : Type} (body : SettingsM α) : SettingsM α := do
  fileCall .fdopen
  ensuring body (fileCall .close)

/-- The loop of `_reject_symlink_components`, from a component on. -/
def rejectSymlinkComponents (current : List String) : List String → SettingsM Unit
  | [] => pure ()
  | part :: parts => do
      rejectSymlink (current ++ [part])
      rejectSymlinkComponents (current ++ [part]) parts

/-- `os.open(self._path, flags)`: the file as it stands. -/
def openFile : SettingsM ByteArray := do
  fileCall .openFile
  match ← tx (fun file => (file, file)) fun _ => SettingsLabel.opened with
  | some bytes => pure bytes
  | none => raise (.os .fileNotFound)

end Calls

section Storage

variable (sha256 : ByteArray → String) (path : SettingsPath)

/-- `_reject_symlink_components(self._path)`. -/
def rejectSymlinks : SettingsM Unit := rejectSymlinkComponents [] (path.parent ++ [path.name])

/-- What `_read_current` raises in place of an `OSError`. -/
def readError : SettingsError → SettingsError
  | .os .fileNotFound => .storage .notFound
  | .os .permission => .storage .permission
  | .os .other => .storage .io
  | error => error

/-- `file.read(MAX_INI_BYTES + 1)`. -/
def readFile (bytes : ByteArray) : SettingsM (FileStat × ByteArray) := do
  let fileStat ← fstat
  raiseIf (fileStat.isRegular = false) (.storage .invalidFile)
  fileCall .read
  pure (fileStat, bytes.extract 0 (maxIniBytes + 1))

/-- `_read_current`. -/
def readCurrent : SettingsM (Str × ByteArray × FileStat) := do
  let (fileStat, encoded) ← tryCatch
    (do
      rejectSymlinks path
      let bytes ← openFile
      withFile (readFile bytes))
    fun error => raise (readError error)
  raiseIf (maxIniBytes < encoded.size) (.storage .invalidFile)
  match decodeUtf8 encoded with
  | none => raise (.storage .invalidFile)
  | some content => pure (content, encoded, fileStat)

/-- `FilePalworldSettingsStorage.read`. -/
def read : SettingsM StoredSettings := do
  let (content, encoded, _) ← readCurrent path
  pure ⟨content, sha256 encoded⟩

/-- `_write_exclusive`. -/
def writeExclusive : SettingsM Unit := do
  fileCall .openExclusive
  withFile do
    fileCall .fchmod
    fileCall .write
    fileCall .flush
    fileCall .fsync

/-- `os.replace(temporary_path, self._path)`. -/
def replaceFile (content : ByteArray) : SettingsM Unit := do
  fileCall .replace
  tx (fun _ => ((), some content)) fun _ => .replaced

/-- The end of `_atomic_replace`. -/
def removeTemporary : SettingsM Unit := do
  let found ← temporaryExists
  if found = true then fileCall .unlink else pure ()

/-- `_atomic_replace`. -/
def atomicReplace (content : ByteArray) : SettingsM Unit := do
  fileCall .mkstemp
  ensuring
    (do
      fileCall .fchmod
      withFile do
        fileCall .write
        fileCall .flush
        fileCall .fsync
      rejectSymlinks path
      replaceFile content
      fileCall .openDirectory
      ensuring (fileCall .fsyncDirectory) (fileCall .closeDirectory))
    removeTemporary

/-- What `write` raises in place of an `OSError`. -/
def writeError : SettingsError → SettingsError
  | .os .permission => .storage .permission
  | .os _ => .storage .io
  | error => error

/-- `content.encode("utf-8")`. -/
def encode (content : Str) : SettingsM ByteArray := do
  tx (fun file => ((), file)) fun _ => .encode content
  match encodeUtf8 content with
  | none => raise .unicodeEncode
  | some bytes => pure bytes

/-- `FilePalworldSettingsStorage.write`, which returns the name of the backup. -/
def write (expectedVersion : String) (content : Str) : SettingsM String := do
  let (_, currentBytes, _) ← readCurrent path
  raiseIf (sha256 currentBytes ≠ expectedVersion) (.storage .conflict)
  let newBytes ← encode content
  raiseIf (maxIniBytes < newBytes.size) (.storage .invalidFile)
  let timestamp ← clock
  tryCatch
    (do
      writeExclusive
      atomicReplace path newBytes)
    fun error => raise (writeError error)
  pure (path.name ++ ".backup-" ++ timestamp ++ "-" ++ (expectedVersion.take 12).toString)

end Storage

end PalworldManager
