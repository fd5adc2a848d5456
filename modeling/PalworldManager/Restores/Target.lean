/-
# The target of a Restore

`restores/service.py`: `FilesystemRestoreTarget.apply`, and the functions it calls.  The
state is the directory that the world stands in, with the trees that `apply` makes beside it,
and the two settings files.  The prepared world stands in the manager's own directory, and
no call here changes it.
-/

import PalworldManager.Backups.Names
import PalworldManager.Effects.Zoom
import PalworldManager.Restores.Disk

namespace PalworldManager

open Effects Files Text
open Effects.Exec hiding bind ask

/-- What `apply` changes. -/
structure RestoreArea where
  /-- What stands in `self._world_root.parent`. -/
  disk : Disk
  settings : SettingsFile
  gameUserSettings : Option ByteArray

/-- The calls outside the tree of which nothing but success is asked. -/
inductive RestoreOp where
  | rejectSymlinkComponents | mkstemp | fchmod | fdopen | write | flush | fsync | close | replace
  | unlink
  deriving DecidableEq, Repr

/-- The tests outside the tree. -/
inductive RestoreTest where
  /-- `managed_root.is_symlink() or not managed_root.is_dir() or path.is_symlink()`. -/
  | managedRoot
  /-- `not path.resolve().is_relative_to(managed_root.resolve())`. -/
  | outside
  /-- `current.is_symlink()` of some component. -/
  | linked
  /-- `path.is_symlink()` of `GameUserSettings.ini`. -/
  | relatedLink
  /-- `not stat.S_ISREG(current_stat.st_mode)`. -/
  | relatedIrregular
  /-- `temporary.exists()`. -/
  | temporary
  deriving DecidableEq, Repr

/-- The questions of `apply`. -/
inductive RestoreCall where
  | disk (call : DiskCall)
  | settings (call : SettingsCall)
  | operation (op : RestoreOp)
  | test (test : RestoreTest)
  /-- `source.rglob("*")`. -/
  | rglob
  /-- `shutil.rmtree(path)`. -/
  | rmtree
  deriving DecidableEq, Repr

/-- Their answers.  `rglob` yields the paths that it finds, and skips a directory that cannot
be listed; `rmtree` removes one path after another, and may raise then. -/
def RestoreCall.Reply : RestoreCall → Type
  | .disk call => call.Reply
  | .settings call => call.Reply
  | .operation _ => Option OsError
  | .test _ => Except OsError Bool
  | .rglob => List DiskPath
  | .rmtree => List DiskPath × Option OsError

/-- The labels of the steps. -/
inductive RestoreLabel where
  | disk (label : DiskLabel)
  | settings (label : SettingsLabel)
  | gameUserSettings
  deriving DecidableEq

/-- A method of the target. -/
abbrev RestoreM :=
  Exec RestoreArea RestoreLabel RestoreCall RestoreCall.Reply RestoreFailure Unit

/-- The tree, as a part of what `apply` changes. -/
def diskZoom : Zoom Disk DiskLabel DiskCall DiskCall.Reply RestoreArea RestoreLabel RestoreCall
    RestoreCall.Reply where
  get s := s.disk
  put t s := { s with disk := t }
  label := .disk
  call := .disk
  reply _ answer := answer
  get_put _ _ := rfl

/-- The settings file, as a part of what `apply` changes. -/
def settingsZoom : Zoom SettingsFile SettingsLabel SettingsCall SettingsCall.Reply RestoreArea
    RestoreLabel RestoreCall RestoreCall.Reply where
  get s := s.settings
  put t s := { s with settings := t }
  label := .settings
  call := .settings
  reply _ answer := answer
  get_put _ _ := rfl

/-- What the storage of the settings raises. -/
def settingsFailure : SettingsError → RestoreFailure
  | .os error => .os error
  | error => .settings error

/-- A function over the tree. -/
def onDisk {α : Type} (x : DiskM α) : RestoreM α := diskZoom.exec id () x

/-- A method of the storage. -/
def onSettings {α : Type} (x : SettingsM α) : RestoreM α := settingsZoom.exec settingsFailure () x

/-- A question. -/
def restoreAsk (call : RestoreCall) : RestoreM call.Reply := Exec.ask call

/-- A call that may raise. -/
def restoreCall (op : RestoreOp) : RestoreM Unit := do
  let answer ← restoreAsk (.operation op)
  match (answer : Option OsError) with
  | none => pure ()
  | some error => raise (.os error)

/-- A test that may raise. -/
def restoreTest (test : RestoreTest) : RestoreM Bool := do
  let answer ← restoreAsk (.test test)
  match (answer : Except OsError Bool) with
  | .ok result => pure result
  | .error error => raise (.os error)

/-- `PreparedRestore`, as far as `apply` reads it. -/
structure PreparedRestore where
  /-- What stands in `world_directory`, which is a directory. -/
  worldDirectory : Disk
  isDirectory : worldDirectory.node [] = some .directory
  palworldSettings : Str
  palworldSettingsVersion : String
  gameUserSettings : Option Str

/-- `self._world_root`, from its parent on. -/
def worldRoot : DiskPath := [str "SaveGames"]

/-- `new_root`. -/
def newRoot (jobId : JobId) : DiskPath :=
  [str (".SaveGames.palworld-manager-restore-j" ++ pad6 jobId ++ "-new")]

/-- `previous_root`. -/
def previousRoot (jobId : JobId) : DiskPath :=
  [str (".SaveGames.palworld-manager-restore-j" ++ pad6 jobId ++ "-previous")]

/-- What `_validate_directory` raises. -/
def targetInvalid : RestoreFailure :=
  .validation "RESTORE_TARGET_INVALID" "O diretório estrutural do mundo é inválido."

/-- `_validate_directory(self._world_root, self._palworld_root)`. -/
def validateDirectory : RestoreM Unit := do
  tryCatch (restoreCall .rejectSymlinkComponents) fun
    | .os _ => raise targetInvalid
    | error => raise error
  let invalid ← restoreTest .managedRoot
  raiseIf (invalid = true) targetInvalid
  let directory ← onDisk (isDir worldRoot)
  raiseIf (directory = false) targetInvalid
  let outside ← restoreTest .outside
  raiseIf (outside = true) targetInvalid
  let linked ← restoreTest .linked
  raiseIf (linked = true) targetInvalid

section Copy

variable (source : Disk) (target : DiskPath)

/-- What a file of the prepared world holds. -/
def contentOf (n : Option (Node ByteArray)) : ByteArray :=
  match n with
  | some (.file content) => content
  | _ => .empty

/-- One step of the loop of `_copy_world_tree`. -/
def copyEntry (relative : DiskPath) : DiskM Unit := do
  diskCall .lstat relative
  raiseIf (Node.isLink (source.node relative) = true)
    (.apply "WORLD_SOURCE_INVALID" "O mundo preparado contém link simbólico.")
  diskCall .stat relative
  if Node.isDirectory (source.node relative) = true then do
    osMkdir (target ++ relative)
    diskCall .chmod (target ++ relative)
    diskCall .chown (target ++ relative)
  else do
    diskCall .stat relative
    if Node.isFile (source.node relative) = true then do
      mkdirParents (target ++ relative).dropLast.reverse
      diskCall .open relative
      ensuring
        (withExclusive (target ++ relative)
          (copyfileobj relative (target ++ relative) (contentOf (source.node relative))))
        (diskCall .close relative)
      diskCall .chmod (target ++ relative)
      diskCall .chown (target ++ relative)
    else
      raise (.apply "WORLD_SOURCE_INVALID" "O mundo preparado contém entrada inválida.")

/-- The loop of `_copy_world_tree`. -/
def copyEntries : List DiskPath → DiskM Unit
  | [] => pure ()
  | relative :: relatives => do
      copyEntry source target relative
      copyEntries relatives

/-- `path.as_posix()` of a relative path. -/
def asPosix (path : DiskPath) : Str := List.intercalate (str "/") path

/-- `sorted(…, key=lambda item: item.as_posix())`. -/
def sortedPaths (paths : List DiskPath) : List DiskPath :=
  paths.mergeSort fun p q => asPosix p ≤ asPosix q

/-- `_copy_world_tree`. -/
def copyWorldTree : RestoreM Unit := do
  onDisk (osMkdir target)
  onDisk (diskCall .chown target)
  let paths ← restoreAsk .rglob
  onDisk (copyEntries source target (sortedPaths paths))

end Copy

/-- The end of `_replace_related_settings`. -/
def removeRelatedTemporary : RestoreM Unit := do
  let found ← restoreTest .temporary
  if found = true then restoreCall .unlink else pure ()

/-- The step of `os.replace(temporary, path)` in `_replace_related_settings`. -/
def replaceRelated (content : ByteArray) : RestoreM Unit := do
  restoreCall .replace
  tx (fun s => ((), { s with gameUserSettings := some content })) fun _ => .gameUserSettings

/-- `content.encode("utf-8")`. -/
def encodeRelated (content : Str) : RestoreM ByteArray :=
  match encodeUtf8 content with
  | none => raise (.settings .unicodeEncode)
  | some bytes => pure bytes

/-- What `_replace_related_settings` writes to its temporary file. -/
def writeRelated (content : Str) : RestoreM ByteArray := do
  let bytes ← encodeRelated content
  restoreCall .write
  restoreCall .flush
  restoreCall .fsync
  pure bytes

/-- `_replace_related_settings`. -/
def replaceRelatedSettings (content : Str) : RestoreM Unit := do
  restoreCall .rejectSymlinkComponents
  let absent ← tx (fun s => (s.gameUserSettings.isNone, s)) fun _ => .gameUserSettings
  raiseIf (absent = true) (.os .fileNotFound)
  let link ← restoreTest .relatedLink
  let irregular ← restoreTest .relatedIrregular
  raiseIf (link = true ∨ irregular = true) (.os .other)
  restoreCall .mkstemp
  ensuring
    (do
      restoreCall .fchmod
      restoreCall .fdopen
      let bytes ← ensuring (writeRelated content) (restoreCall .close)
      replaceRelated bytes)
    removeRelatedTemporary

/-- `if prepared.game_user_settings is not None`. -/
def replaceIfPresent : Option Str → RestoreM Unit
  | some content => replaceRelatedSettings content
  | none => pure ()

/-- `shutil.rmtree(path)`. -/
def rmtree (path : DiskPath) : RestoreM Unit := do
  let answer ← restoreAsk .rmtree
  match (answer : List DiskPath × Option OsError) with
  | (removed, failure) => do
      onDisk (removeEach path removed)
      match failure with
      | some error => raise (.os error)
      | none => onDisk (removeEach path [[]])

section Apply

variable (sha256 : ByteArray → String) (path : SettingsPath) (prepared : PreparedRestore)
  (jobId : JobId)

/-- The condition of `apply` on the trees that an earlier call left. -/
def leftover : RestoreM Bool := do
  let new ← onDisk (existsOrLink (newRoot jobId))
  if new = true then pure true else onDisk (existsOrLink (previousRoot jobId))

/-- The statements of `apply` that its handlers guard. -/
def applyPrepared : RestoreM Unit := do
  copyWorldTree prepared.worldDirectory (newRoot jobId)
  onDisk (replaceDirectory worldRoot (previousRoot jobId))
  onDisk (replaceDirectory (newRoot jobId) worldRoot)
  let _ ← onSettings (write sha256 path prepared.palworldSettingsVersion prepared.palworldSettings)
  replaceIfPresent prepared.gameUserSettings
  rmtree (previousRoot jobId)

/-- What `apply` raises in place of what it catches. -/
def applyFailure : RestoreFailure → RestoreFailure
  | .settings (.storage _) =>
      .apply "SETTINGS_APPLY_FAILED" "A configuração combinada não pôde ser aplicada."
  | .os _ => .apply "WORLD_APPLY_FAILED" "O mundo não pôde ser restaurado com segurança."
  | failure => failure

/-- `FilesystemRestoreTarget.apply`. -/
def applyRestoreTarget : RestoreM Unit := do
  validateDirectory
  let found ← leftover jobId
  raiseIf (found = true)
    (.apply "RESTORE_STATE_AMBIGUOUS" "Existem artefatos de Restore que exigem revisão manual.")
  onDisk (diskCall .stat worldRoot)
  tryCatch (applyPrepared sha256 path prepared jobId) fun failure => raise (applyFailure failure)

end Apply

end PalworldManager
