import AflSnapshot.World
import Mathlib.Data.List.DropRight

/-! The snapshot of the open files (`files.c`), and the system calls that change what is open. -/

namespace AflSnapshot

/-- `iterate_fd`: call `f` for every open descriptor, from the first, until it returns a result. -/
def iterateFd {σ : Type} (f : σ → (file fd : Nat) → σ × Int) : List (Option Nat) → (fd : Nat) → σ → σ × Int
  | [], _, s => (s, 0)
  | none :: fds, fd, s => iterateFd f fds (fd + 1) s
  | some file :: fds, fd, s =>
    let r := f s file fd
    if r.2 = 0 then iterateFd f fds (fd + 1) r.1 else r

/-- The open descriptors of a table in one of another size, which has room for them. -/
def resizeFds (size : Nat) (fds : List (Option Nat)) : List (Option Nat) :=
  let used := fds.rdropWhile Option.isNone
  used ++ List.replicate (size - used.length) none

/-- A table with one entry changed; it grows where it has to. -/
def installFd (fds : List (Option Nat)) (fd : Nat) (file : Option Nat) : List (Option Nat) :=
  (fds ++ List.replicate (fd + 1 - fds.length) none).set fd file

/-- The lowest descriptor that is not in use. -/
def unusedFd (fds : List (Option Nat)) : Nat := fds.findIdx Option.isNone

namespace Files
variable (env : Env) (fs : Files)

/-- `dup_fd`. -/
def dupFd (files : Nat) : Files × Option Nat :=
  if env.dupFd then
    ({ fs with
        filesStruct := Function.update fs.filesStruct fs.fresh
          ⟨1, resizeFds env.fdtSize (fs.filesStruct files).fds⟩
        fresh := fs.fresh + 1 }, some fs.fresh)
  else (fs, none)

def addCount (files : Nat) (n : Int) : Files :=
  let s := fs.filesStruct files
  { fs with filesStruct := Function.update fs.filesStruct files { s with count := (s.count + n).toNat } }

/-- `put_files_struct`. -/
def putFilesStruct (files : Nat) : Files := fs.addCount files (-1)

/-- `save_file_offset`; `vfs_llseek(file, 0, SEEK_CUR)` fails with `-ESPIPE` where the file has no position. -/
def saveFileOffset (offsets : List Int) (file fd : Nat) : List Int × Int :=
  (offsets.set fd (if (fs.file file).seekable then (fs.file file).pos else -29), 0)

/-- `restore_file_offset`. -/
def restoreFileOffset (offsets : List Int) (fs : Files) (file fd : Nat) : Files × Int :=
  let offset := offsets.getD fd (-1)
  if offset < 0 then (fs, 0)
  else
    let res := if (fs.file file).seekable then env.llseek file offset else -29
    if res < 0 then (fs, res)
    else
      let fs := { fs with file := Function.update fs.file file { fs.file file with pos := res } }
      (fs, if res = offset then 0 else 1)

/-- `take_files_snapshot`. -/
def takeFilesSnapshot (files : Nat) (data : TaskData) : (Files × OpenFilesSnapshot) × Int :=
  if hasFlag data.config aflSnapshotFds then
    match fs.dupFd env files with
    | (fs, none) => ((fs, data.ss.ssFiles), -12)
    | (fs, some copy) =>
      let fds := (fs.filesStruct copy).fds
      if env.kmallocOffsets then
        let r := iterateFd fs.saveFileOffset fds 0 (List.replicate fds.length (-1))
        if r.2 = 0 then ((fs, ⟨some copy, some r.1⟩), 0)
        else ((fs.putFilesStruct copy, data.ss.ssFiles), r.2)
      else ((fs.putFilesStruct copy, data.ss.ssFiles), -12)
  else ((fs, ⟨none, none⟩), 0)

/-- `clean_files_snapshot`. -/
def cleanFilesSnapshot (data : TaskData) : Files × OpenFilesSnapshot :=
  match data.ss.ssFiles.files with
  | some files => (fs.putFilesStruct files, ⟨none, none⟩)
  | none => (fs, ⟨none, none⟩)

end Files

/-! ### System calls -/

/-- What a process does with its descriptors. A transfer moves the position of a file, whatever else it does. -/
inductive FileOp where
  | open_ (file : OpenFile)
  | close (fd : Nat)
  | dup (fd : Nat)
  | dup2 (fd new : Nat)
  | read (fd : Nat) (pos : Int)
  | write (fd : Nat) (pos : Int)
  | lseek (fd : Nat) (pos : Int)
deriving DecidableEq, Repr

namespace Files
variable (fs : Files)

/-- The open file behind a descriptor of a table. -/
def fileAt (files fd : Nat) : Option Nat := (fs.filesStruct files).fds.getD fd none

def install (files fd : Nat) (file : Option Nat) : Files :=
  let s := fs.filesStruct files
  { fs with filesStruct := Function.update fs.filesStruct files { s with fds := installFd s.fds fd file } }

/-- Move the position of the file behind a descriptor, where it has one. -/
def seek (files fd : Nat) (pos : Int) : Files :=
  match fs.fileAt files fd with
  | some f => if (fs.file f).seekable then { fs with file := Function.update fs.file f { fs.file f with pos } } else fs
  | none => fs

/-- A system call of a process with the table `files`. -/
def call (files : Nat) : FileOp → Files
  | .open_ file =>
    { fs.install files (unusedFd (fs.filesStruct files).fds) (some fs.freshFile) with
      file := Function.update fs.file fs.freshFile file
      freshFile := fs.freshFile + 1 }
  | .close fd => fs.install files fd none
  | .dup fd =>
    match fs.fileAt files fd with
    | some f => fs.install files (unusedFd (fs.filesStruct files).fds) (some f)
    | none => fs
  | .dup2 fd new =>
    match fs.fileAt files fd with
    | some f => fs.install files new (some f)
    | none => fs
  | .read fd pos | .write fd pos | .lseek fd pos => fs.seek files fd pos

end Files
end AflSnapshot
