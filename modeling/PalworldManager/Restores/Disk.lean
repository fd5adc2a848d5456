/-
# The file system of a Restore

The calls of the file system that `restores/service.py` makes, through `os`, `pathlib` and
`shutil`.  Each is a question first, which answers whether the operating system lets the call
through, and then one step on the tree, which fails where the call does for what stands
there.  A call that fails has changed nothing; a copy that fails has left what it had
written.
-/

import PalworldManager.Effects.Exec
import PalworldManager.Files.Tree
import PalworldManager.PalworldSettings.Storage

namespace PalworldManager

open Effects Files Text
open Effects.Exec hiding bind ask

/-- A path, by the names of its components. -/
abbrev DiskPath := List Str

/-- The files and directories. -/
abbrev Disk := Tree Str ByteArray

/-- What the functions of a Restore raise. -/
inductive RestoreFailure where
  /-- `RestoreValidationError`. -/
  | validation (category publicMessage : String)
  /-- `RestoreApplyError`. -/
  | apply (category publicMessage : String)
  /-- `BackupValidationError`. -/
  | backup (message : String)
  | os (error : OsError)
  /-- `tarfile.TarError`. -/
  | tar
  | settings (error : SettingsError)
  deriving DecidableEq, Repr

/-- The calls of which nothing but success is asked. -/
inductive DiskOp where
  | mkdir | open | openExclusive | read | write | close | chmod | chown | lstat | stat | resolve
  | extractfile | replace
  deriving DecidableEq, Repr

/-- A call on a path. -/
structure DiskCall where
  op : DiskOp
  path : DiskPath
  deriving DecidableEq, Repr

/-- Whether it raises. -/
def DiskCall.Reply (_ : DiskCall) : Type := Option OsError

/-- The labels of the steps. -/
inductive DiskLabel where
  | mkdir (path : DiskPath)
  | create (path : DiskPath)
  | write (path : DiskPath)
  | stat (path : DiskPath)
  | move (source target : DiskPath)
  | remove (path : DiskPath)
  deriving DecidableEq, Repr

/-- A function over the file system. -/
abbrev DiskM := Exec Disk DiskLabel DiskCall DiskCall.Reply RestoreFailure Unit

/-- A call that may raise. -/
def diskCall (op : DiskOp) (path : DiskPath) : DiskM Unit := do
  let answer ← Exec.ask ⟨op, path⟩
  match (answer : Option OsError) with
  | none => pure ()
  | some error => raise (.os error)

/-- A step that may raise. -/
def diskTx (f : Disk → Option OsError × Disk) (label : DiskLabel) : DiskM Unit := do
  match ← tx f fun _ => label with
  | none => pure ()
  | some error => raise (.os error)

/-- A test of `pathlib`; what is not there is told by the tree. -/
def diskTest (op : DiskOp) (path : DiskPath) (test : Option (Node ByteArray) → Bool) :
    DiskM Bool := do
  let found ← tx (fun t => (test (t.node path), t)) fun _ => .stat path
  let answer ← Exec.ask ⟨op, path⟩
  match (answer : Option OsError) with
  | none => pure found
  | some .fileNotFound => pure found
  | some error => raise (.os error)

/-- The error of a call that makes something where it cannot: a component of the path that is
no directory is another error than one that is missing. -/
def absence (t : Disk) (path : DiskPath) : OsError :=
  if path.dropLast.inits.any fun p => (t.node p).any fun n => !Node.isDirectory (some n) then .other
  else .fileNotFound

/-- Put something where nothing stands. -/
def putNew (t : Disk) (path : DiskPath) (n : Node ByteArray) : Option OsError × Disk :=
  if h : t.node path = none ∧ t.Free path then (none, t.put path n h.2)
  else (some (if (t.node path).isSome then .other else absence t path), t)

/-- `os.mkdir(path)`. -/
def osMkdir (path : DiskPath) : DiskM Unit := do
  diskCall .mkdir path
  diskTx (fun t => putNew t path .directory) (.mkdir path)

/-- `path.is_dir()`. -/
def isDir (path : DiskPath) : DiskM Bool := diskTest .stat path Node.isDirectory

/-- `path.exists() or path.is_symlink()`. -/
def existsOrLink (path : DiskPath) : DiskM Bool := do
  let found ← diskTest .stat path fun n => n.isSome && !Node.isLink n
  if found = true then pure true else diskTest .lstat path Node.isLink

/-- `path.mkdir(exist_ok=True)`, with what it does where the parent is missing. -/
def mkdirExistOk (path : DiskPath) (missing : DiskM Unit) : DiskM Unit :=
  tryCatch (osMkdir path) fun
    | .os .fileNotFound => missing
    | .os error => do
        let found ← isDir path
        raiseIf (found = false) (.os error)
    | error => raise error

/-- `path.mkdir(parents=True, exist_ok=True)`, of a path given from its last component on. -/
def mkdirParents : List Str → DiskM Unit
  | [] => mkdirExistOk [] (raise (.os .fileNotFound))
  | k :: r => mkdirExistOk (k :: r).reverse do
      mkdirParents r
      mkdirExistOk (k :: r).reverse (raise (.os .fileNotFound))

/-- `path.open("xb")`. -/
def openExclusive (path : DiskPath) : DiskM Unit := do
  diskCall .openExclusive path
  diskTx (fun t => putNew t path (.file .empty)) (.create path)

/-- What a file holds once more is written to it. -/
def extend (t : Disk) (path : DiskPath) (block : ByteArray) : Disk :=
  match t.node path with
  | some (.file content) =>
      if h : t.Free path then t.put path (.file (content ++ block)) h else t
  | _ => t

/-- `length` of `copyfileobj`. -/
def blockSize : ℕ := 1024 * 1024

/-- The loop of `copyfileobj`: so many blocks of `content` from a position on, and the end. -/
def copyBlocks (source target : DiskPath) (content : ByteArray) : ℕ → ℕ → DiskM Unit
  | _, 0 => diskCall .read source
  | start, n + 1 => do
      diskCall .read source
      diskCall .write target
      tx (fun t => ((), extend t target (content.extract start (start + blockSize))))
        fun _ => .write target
      copyBlocks source target content (start + blockSize) n

/-- `shutil.copyfileobj(input, output, length=1024 * 1024)`. -/
def copyfileobj (source target : DiskPath) (content : ByteArray) : DiskM Unit :=
  copyBlocks source target content 0 ((content.size + blockSize - 1) / blockSize)

/-- `os.replace(source, target)` of a directory; nothing may stand at the target. -/
def replaceDirectory (source target : DiskPath) : DiskM Unit := do
  diskCall .replace source
  diskTx (fun t => if h : t.Movable source target then (none, t.move source target h)
      else (some (if (t.node source).isSome then .other else .fileNotFound), t))
    (.move source target)

/-- What `rmtree` removes, one after another; a directory goes with what is left in it. -/
def removeEach (path : DiskPath) : List DiskPath → DiskM Unit
  | [] => pure ()
  | q :: qs => do
      tx (fun t => ((), t.remove (path ++ q))) fun _ => .remove (path ++ q)
      removeEach path qs

/-- `with target.open("xb") as output`. -/
def withExclusive (target : DiskPath) (body : DiskM Unit) : DiskM Unit := do
  openExclusive target
  ensuring body (diskCall .close target)

end PalworldManager
