/-
# Common.SimFs — a directory whose bytes and entries are volatile until synced

The file-system interface of `common/fs.h` for one data directory, with the two
facts durability depends on, as `testing/sim_fs.cpp` has them: appended bytes are
volatile until the file is synced, and directory changes are volatile until the
directory is.  A directory entry names a file by its number in `files`, because
the visible and the durable directory share the file behind an entry and an open
handle outlives its name.

`content` is the visible directory: what `list_dir` and `read_file` show.  Three
things can be left after a crash: everything visible (the process died, and the
directory is as it was), only what was synced (`loseUnsynced`), or any torn
mixture (`TornImage`).
-/
import Baton.Common.Codec
import Baton.Common.Result
import Mathlib.Data.List.AList

namespace Baton

set_option autoImplicit false

/-- A file name within the data directory. -/
abbrev FileName := List Char

/-- `data[0, synced)` is durable. -/
structure SimFile where
  data : Bytes := []
  synced : Nat := 0
  deriving DecidableEq, Repr

/-- Each name with the number of its file. -/
abbrev Entries := AList fun _ : FileName => Nat

/-- A directory change that has not been made durable yet. -/
inductive DirOp where
  | kLink (name : FileName) (file : Nat)
  | kUnlink (name : FileName)
  | kRename (name newName : FileName) (file : Nat)
  deriving DecidableEq, Repr

def DirOp.apply (entries : Entries) : DirOp → Entries
  | .kLink name file => entries.insert name file
  | .kUnlink name => entries.erase name
  | .kRename name newName file => (entries.erase name).insert newName file

inductive OpenMode where
  | kCreateNew
  | kAppendExisting
  deriving DecidableEq, Repr

structure SimFs where
  files : List SimFile := []
  current : Entries := ∅
  durable : Entries := ∅
  /-- in the order they happened -/
  pending : List DirOp := []

namespace SimFs

def file (fs : SimFs) (ino : Nat) : SimFile := fs.files.getD ino {}

def setFile (fs : SimFs) (ino : Nat) (f : SimFile) : SimFs :=
  { fs with files := fs.files.set ino f }

/-- The visible bytes of `name`, if it exists. -/
def content (fs : SimFs) (name : FileName) : Option Bytes :=
  (fs.current.lookup name).map fun ino => (fs.file ino).data

/-! ## The interface -/

/-- The order of the names is unspecified; no result depends on it. -/
def listDir (fs : SimFs) : List FileName := fs.current.keys

def noSuchFile (what : String) (name : FileName) : Error :=
  ⟨.kIo, s!"{what} {String.ofList name}: No such file or directory"⟩

def openAppend (fs : SimFs) (name : FileName) (mode : OpenMode) : Result (Nat × SimFs) :=
  match mode, fs.current.lookup name with
  | .kCreateNew, some _ => .error ⟨.kIo, s!"open {String.ofList name}: File exists"⟩
  | .kCreateNew, none =>
    let ino := fs.files.length
    .ok (ino, { fs with
      files := fs.files ++ [{}]
      current := fs.current.insert name ino
      pending := fs.pending ++ [.kLink name ino] })
  | .kAppendExisting, some ino => .ok (ino, fs)
  | .kAppendExisting, none => .error (noSuchFile "open" name)

def readFile (fs : SimFs) (name : FileName) : Result Bytes :=
  match fs.content name with
  | some data => .ok data
  | none => .error (noSuchFile "open" name)

/-- `WritableFile::size`. -/
def size (fs : SimFs) (ino : Nat) : Nat := (fs.file ino).data.length

/-- `WritableFile::append`. -/
def append (fs : SimFs) (ino : Nat) (data : Bytes) : SimFs :=
  fs.setFile ino { fs.file ino with data := (fs.file ino).data ++ data }

/-- `WritableFile::sync`. -/
def sync (fs : SimFs) (ino : Nat) : SimFs :=
  fs.setFile ino { fs.file ino with synced := (fs.file ino).data.length }

/-- Shrinks a file; the interface promises a durable truncate. -/
def truncate (fs : SimFs) (name : FileName) (size : Nat) : Result SimFs :=
  match fs.current.lookup name with
  | some ino =>
    let data := (fs.file ino).data.take size
    .ok (fs.setFile ino ⟨data, data.length⟩)
  | none => .error (noSuchFile "open" name)

def remove (fs : SimFs) (name : FileName) : Result SimFs :=
  match fs.current.lookup name with
  | some _ => .ok { fs with
      current := fs.current.erase name
      pending := fs.pending ++ [.kUnlink name] }
  | none => .error (noSuchFile "unlink" name)

def syncDir (fs : SimFs) : SimFs := { fs with durable := fs.current, pending := [] }

/-! ## Crashes -/

/-- Power loss during writeback: a file keeps its synced bytes and any prefix of
the unsynced ones, the end of which may be garbage. -/
def TornFile (before after : SimFile) : Prop :=
  ∃ (keep : Nat) (garbage : Bytes),
    before.synced + garbage.length ≤ keep ∧ keep ≤ before.data.length ∧
    after.data = before.data.take (keep - garbage.length) ++ garbage ∧
    after.synced = after.data.length

/-- A directory that holds one file, all of it durable. -/
def single (name : FileName) (data : Bytes) : SimFs where
  files := [⟨data, data.length⟩]
  current := AList.singleton name 0
  durable := AList.singleton name 0

/-! ## What the operations leave of the rest -/

@[simp] theorem setFile_current (fs : SimFs) (ino : Nat) (f : SimFile) :
    (fs.setFile ino f).current = fs.current := rfl
@[simp] theorem setFile_files_length (fs : SimFs) (ino : Nat) (f : SimFile) :
    (fs.setFile ino f).files.length = fs.files.length := by simp [setFile]

theorem file_setFile_self (fs : SimFs) {ino : Nat} (f : SimFile) (exists_ : ino < fs.files.length) :
    (fs.setFile ino f).file ino = f := by
  simp [file, setFile, exists_]

@[simp] theorem file_setFile_ne (fs : SimFs) {ino other : Nat} (f : SimFile) (ne : other ≠ ino) :
    (fs.setFile ino f).file other = fs.file other := by
  simp [file, setFile, List.getElem?_set_ne (Ne.symm ne)]

theorem readFile_ok {fs : SimFs} {name : FileName} {data : Bytes} :
    fs.readFile name = .ok data ↔ fs.content name = some data := by
  unfold readFile
  cases fs.content name <;> simp

theorem mem_listDir {fs : SimFs} {name : FileName} :
    name ∈ fs.listDir ↔ (fs.content name).isSome := by
  rw [listDir, ← AList.mem_keys, content, Option.isSome_map, AList.lookup_isSome]

end SimFs

end Baton
