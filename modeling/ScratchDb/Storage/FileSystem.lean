import ScratchDb.Lib.Prog
import ScratchDb.Storage.Page

/-!
# Files, durable effects and the world of one session

Directories, the two kinds of files the program writes (paged files and
schema texts) and the log. Every change of them is an `Effect`; a program
performs effects one at a time and the world keeps them in order, so a crash
leaves the disk after some prefix of that trace.
-/

namespace ScratchDb

/-! ## Paths -/

/-- A path split at its separators. -/
abbrev Path := List Bytes

def separator : UInt8 := 47

/-- `std::filesystem::path(s)`; paths are lexically normal throughout. -/
def pathOf (s : Bytes) : Path := s.splitOn separator

/-- `directory / name`. -/
def joinPath (directory name : Bytes) : Bytes := directory ++ separator :: name

def Path.filename (p : Path) : Bytes := p.getLastD []

/-- `TABLE_FILE_NAME`: `data.tbl`. -/
def tableFileName : Bytes := [100, 97, 116, 97, 46, 116, 98, 108]

/-- `SCHEMA_FILE_NAME`: `schema.catalog`. -/
def schemaFileName : Bytes := [115, 99, 104, 101, 109, 97, 46, 99, 97, 116, 97, 108, 111, 103]

theorem pathOf_joinPath (directory : Bytes) {name : Bytes} (h : separator ∉ name) :
    pathOf (joinPath directory name) = pathOf directory ++ [name] := by
  rw [pathOf, joinPath, List.splitOn_append_cons_self, List.splitOn_eq_singleton h]
  rfl

theorem pathOf_tableFile (directory : Bytes) :
    pathOf (joinPath directory tableFileName) = pathOf directory ++ [tableFileName] :=
  pathOf_joinPath directory (by decide)

theorem pathOf_schemaFile (directory : Bytes) :
    pathOf (joinPath directory schemaFileName) = pathOf directory ++ [schemaFileName] :=
  pathOf_joinPath directory (by decide)

theorem pathOf_ne_nil (s : Bytes) : pathOf s ≠ [] := List.splitOn_ne_nil _ _

/-! ## The file system -/

/-- Directories, schema texts, and paged files as their 4096-byte blocks. -/
structure FileSystem where
  isDirectory : Path → Bool
  text : Path → Option Bytes
  pages : Path → Option (List Page)

/-- Write block `k` of a file; the gap behind its old end reads as zeros. -/
def writeBlock (blocks : List Page) (k : Nat) (page : Page) : List Page :=
  if k < blocks.length then blocks.set k page
  else blocks ++ List.replicate (k - blocks.length) Page.zero ++ [page]

namespace FileSystem

/-- Block `k` of a file, zeros where the file ends before it. -/
def pageAt (fs : FileSystem) (file : Path) (k : Nat) : Page :=
  ((fs.pages file).getD []).getD k Page.zero

def pageCount (fs : FileSystem) (file : Path) : Nat := ((fs.pages file).getD []).length

/-- The directory a file is created in exists; the working directory does. -/
def parentExists (fs : FileSystem) (file : Path) : Bool :=
  file.dropLast.isEmpty || fs.isDirectory file.dropLast

end FileSystem

/-- What is on disk: the files and the records of `database.wal`. -/
structure Disk where
  fs : FileSystem
  wal : List WalRecord

/-- One durable change. -/
inductive Effect where
  /-- `full_write` of one record to the log. -/
  | append (r : WalRecord)
  /-- `create_directories`. -/
  | createDirectories (directory : Path)
  /-- Opening a paged file with `O_CREAT`. -/
  | openCreate (file : Path)
  /-- Opening a text file with `trunc`. -/
  | truncateText (file : Path)
  | writeText (file : Path) (text : Bytes)
  /-- Writing a temporary file and renaming it over `file`. -/
  | replaceText (file : Path) (text : Bytes)
  /-- `remove_all`. -/
  | removeAll (directory : Path)
  /-- A `pwrite` of one block. -/
  | writePage (file : Path) (pageId : Nat) (page : Page)

namespace Effect

/-- Creating or opening a file needs its directory; everything else succeeds. -/
def possible (fs : FileSystem) : Effect → Bool
  | openCreate file => fs.parentExists file
  | truncateText file => fs.parentExists file
  | writeText file _ => fs.parentExists file
  | replaceText file _ => fs.parentExists file
  | writePage file _ _ => fs.parentExists file
  | _ => true

def applyFs (fs : FileSystem) : Effect → FileSystem
  | append _ => fs
  | createDirectories directory =>
    { fs with isDirectory := fun p => fs.isDirectory p || p.isPrefixOf directory }
  | openCreate file =>
    { fs with pages := fun p => if p = file then some ((fs.pages p).getD []) else fs.pages p }
  | truncateText file => { fs with text := fun p => if p = file then some [] else fs.text p }
  | writeText file text => { fs with text := fun p => if p = file then some text else fs.text p }
  | replaceText file text => { fs with text := fun p => if p = file then some text else fs.text p }
  | removeAll directory =>
    { isDirectory := fun p => fs.isDirectory p && !directory.isPrefixOf p
      text := fun p => if directory.isPrefixOf p then none else fs.text p
      pages := fun p => if directory.isPrefixOf p then none else fs.pages p }
  | writePage file pageId page =>
    { fs with pages := fun p =>
        if p = file then some (writeBlock ((fs.pages p).getD []) pageId page) else fs.pages p }

def apply (d : Disk) (e : Effect) : Disk :=
  { fs := e.applyFs d.fs
    wal := match e with
      | append r => d.wal ++ [r]
      | _ => d.wal }

end Effect

/-! ## The world of one session -/

/-- The counters of a `WalManager`. -/
structure WalManager where
  lastLsn : Nat
  durableLsn : Nat
deriving DecidableEq, Repr

/-- An effect and the manager's `durable_lsn_` at that moment. -/
structure IoEvent where
  effect : Effect
  durableLsn : Nat

structure World where
  disk : Disk
  manager : WalManager
  trace : List IoEvent

/-- Why a program stops without returning: a C++ exception, or a loop that
has not ended within the rounds given to it. -/
inductive Stop where
  | exception
  | outOfRounds
deriving DecidableEq, Repr

abbrev Io := Prog Stop World

/-- Perform one effect; `false` when the operating system refuses it. -/
def perform (e : Effect) : Io Bool := fun w =>
  if e.possible w.disk.fs then
    (.ok true, { w with disk := e.apply w.disk, trace := w.trace ++ [⟨e, w.manager.durableLsn⟩] })
  else (.ok false, w)

/-- The disk after the first `n` effects of a run that started on `d`. -/
def Disk.after (d : Disk) (events : List IoEvent) : Disk :=
  events.foldl (fun d event => event.effect.apply d) d

end ScratchDb
