import NetworkSystem.Lib.Bytes
import NetworkSystem.Lib.Store
import Mathlib.Logic.Function.Basic

/-! The part of the C library the programs rest on: stdio streams on regular
files, and the directory a process works in. -/

namespace NetworkSystem

open Store

/-- A stream on a regular file, with the content the file has once it is closed. -/
structure FILE where
  content : Bytes
  pos : Nat
  eof : Bool
  deriving DecidableEq, Repr

namespace FILE

def opened (content : Bytes) : FILE := ⟨content, 0, false⟩

/-- `fseek(fp, offset, SEEK_SET)`; a negative offset is refused. -/
def fseek (fp : FILE) (offset : Int) : FILE :=
  if offset < 0 then fp else { fp with pos := offset.toNat, eof := false }

/-- A short read happens only at the end of the file and sets its indicator. -/
def fread (fp : FILE) (count : Nat) : Bytes × FILE :=
  let data := load fp.content fp.pos count
  (data, { fp with pos := fp.pos + data.length, eof := fp.eof || decide (data.length < count) })

def fwrite (fp : FILE) (data : Bytes) : FILE :=
  { fp with content := store 0 fp.content fp.pos data, pos := fp.pos + data.length }

def sizeOfFp (fp : FILE) : Nat := fp.content.length

@[simp] theorem fseek_content (fp : FILE) (offset : Int) :
    (fp.fseek offset).content = fp.content := by
  simp only [fseek]
  split <;> rfl

theorem fseek_natCast (fp : FILE) (offset : Nat) :
    fp.fseek offset = { fp with pos := offset, eof := false } := by
  have nonneg : ¬ (offset : Int) < 0 := by omega
  simp only [fseek, nonneg, ↓reduceIte, Int.toNat_natCast]

@[simp] theorem fread_content (fp : FILE) (count : Nat) :
    (fp.fread count).2.content = fp.content := rfl

theorem fread_length (fp : FILE) (count : Nat) :
    (fp.fread count).1.length = min count (fp.content.length - fp.pos) :=
  length_load _ _ _

end FILE

/-- What `fopen(path, "rb")` opens. Every read of a directory fails, and none meets an end. -/
inductive Opened where
  | file (fp : FILE)
  | directory

/-- `struct dirent`, as far as it is read. -/
structure Dirent where
  name : Bytes
  isDir : Bool

/-- The directory a process works in, by the path strings it passes: the files, the
subdirectories, and what the system decides: at which paths it allows a file (the directories
on the way are there, or the program makes them before), what `readdir` reports, and how much
of a stream that is still open has reached its file. -/
structure Disk where
  files : Bytes → Option Bytes
  dirs : Bytes → Bool
  allowed : Bytes → Bool
  mkdirAllowed : Bytes → Bool
  readdir : (Bytes → Option Bytes) → Bytes → Option (List Dirent)
  flushed : FILE → Bytes

namespace Disk

def save (disk : Disk) (path content : Bytes) : Disk :=
  { disk with files := Function.update disk.files path (some content) }

def unlink (disk : Disk) (path : Bytes) : Disk :=
  { disk with files := Function.update disk.files path none }

/-- `fclose` of a stream that was written. -/
def close (disk : Disk) (path : Bytes) (fp : FILE) : Disk := disk.save path fp.content

/-- A written stream that is not closed. -/
def leave (disk : Disk) (path : Bytes) (fp : FILE) : Disk := disk.save path (disk.flushed fp)

/-- `fopen(path, "rb")` where no directory stands at the path. The DFC programs and the HTTP
server are modelled on such paths. -/
def fopenRead (disk : Disk) (path : Bytes) : Option FILE :=
  (disk.files path).map FILE.opened

/-- There is nothing but a directory at the path. -/
def IsDir (disk : Disk) (path : Bytes) : Prop := disk.files path = none ∧ disk.dirs path = true

/-- `fopen(path, "rb")` -/
def fopen (disk : Disk) (path : Bytes) : Option Opened :=
  match disk.files path with
  | some content => some (.file (FILE.opened content))
  | none => if disk.dirs path then some .directory else none

/-- The process can open the path for writing. -/
def creatable (disk : Disk) (path : Bytes) : Bool := disk.allowed path && !disk.dirs path

/-- `fopen(path, "wb")`, which leaves an empty file. -/
def fopenWrite (disk : Disk) (path : Bytes) : Option (FILE × Disk) :=
  if disk.creatable path then some (FILE.opened [], disk.save path []) else none

theorem fopen_of_file {disk : Disk} {path content : Bytes}
    (there : disk.files path = some content) :
    disk.fopen path = some (.file (FILE.opened content)) := by
  rw [fopen, there]

theorem fopen_of_isDir {disk : Disk} {path : Bytes} (isDir : disk.IsDir path) :
    disk.fopen path = some .directory := by
  rw [fopen, isDir.1]
  exact if_pos isDir.2

theorem fopen_eq_none {disk : Disk} {path : Bytes} :
    disk.fopen path = none ↔ disk.files path = none ∧ ¬ disk.IsDir path := by
  rw [fopen, IsDir]
  cases disk.files path with
  | none => simp
  | some content => simp

@[simp] theorem save_files_self (disk : Disk) (path content : Bytes) :
    (disk.save path content).files path = some content :=
  Function.update_self _ _ _

theorem save_files_of_ne (disk : Disk) (path content other : Bytes) (different : other ≠ path) :
    (disk.save path content).files other = disk.files other :=
  Function.update_of_ne different _ _

@[simp] theorem save_save (disk : Disk) (path first second : Bytes) :
    (disk.save path first).save path second = disk.save path second := by
  simp only [save, Function.update_idem]

theorem leave_leave (disk : Disk) (path : Bytes) (first second : FILE) :
    (disk.leave path first).leave path second = disk.leave path second :=
  save_save _ _ _ _

theorem close_leave (disk : Disk) (path : Bytes) (first second : FILE) :
    (disk.leave path first).close path second = disk.close path second :=
  save_save _ _ _ _

theorem unlink_files_of_ne (disk : Disk) (path other : Bytes) (different : other ≠ path) :
    (disk.unlink path).files other = disk.files other :=
  Function.update_of_ne different _ _

end Disk

end NetworkSystem
