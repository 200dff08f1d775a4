import Mathlib.Data.Finset.Filter
import Mathlib.Data.Finset.Insert
import Mathlib.Data.Fintype.Basic
import ScratchDb.Indexes.IndexFile
import ScratchDb.Lib.Machine

/-!
# One index file in several sessions

Each `IndexFile` object keeps its own copy of the entries and writes it back
when it is destroyed. Statements use theirs under the exclusive lock of the
table, but `find_rows_by_index` and the `rebuild_indexes` part of `ROLLBACK`
take no lock while they have one. The steps of the sessions on one table with
one index interleave in any order. The file stands as the list of the entries
that its pages hold, and the rows of the table stand as their index entries.
-/

namespace ScratchDb

/-! ## Changes of the entries in memory -/

/-- `IndexFile::insert` before the flush: the entries then in memory, `none` if it refuses. -/
def insertInMemory (unique : Bool) (entries : List IndexEntry) (entry : IndexEntry) :
    Option (List IndexEntry) :=
  if !IndexFile.entryFitsEmptyLeaf entry then none
  else if unique && (lowerBound entries (IndexFile.lowestEntry entry.key)).head?.any
      fun e => e.key = entry.key then none
  else if (lowerBound entries entry).head? = some entry then some entries
  else some (insertEntry entries entry)

/-- `IndexFile::remove` before the flush. -/
def removeInMemory (entries : List IndexEntry) (entry : IndexEntry) : List IndexEntry :=
  if (lowerBound entries entry).head? ≠ some entry then entries else eraseEntry entries entry

/-- What a statement does to the index, under one `IndexFile` each. -/
inductive EntryChange where
  | add (entry : IndexEntry)
  | drop (entry : IndexEntry)
deriving DecidableEq

def EntryChange.apply (unique : Bool) (entries : List IndexEntry) :
    EntryChange → Option (List IndexEntry)
  | .add entry => insertInMemory unique entries entry
  | .drop entry => some (removeInMemory entries entry)

/-- What a statement does to the table. -/
inductive RowChange where
  | insert (row : IndexEntry)
  | delete (row : IndexEntry)
  | update (old new : IndexEntry)
deriving DecidableEq

namespace RowChange

/-- The changed row is there, and the place of the new one is free. -/
def Allowed (rows : Finset IndexEntry) : RowChange → Prop
  | insert row => ∀ r ∈ rows, r.recordId ≠ row.recordId
  | delete row => row ∈ rows
  | update old new => old ∈ rows ∧ ∀ r ∈ rows, r ≠ old → r.recordId ≠ new.recordId

instance (rows : Finset IndexEntry) (c : RowChange) : Decidable (c.Allowed rows) :=
  match c with
  | insert _ => inferInstanceAs (Decidable (∀ r ∈ rows, _))
  | delete _ => inferInstanceAs (Decidable (_ ∈ rows))
  | update _ _ => inferInstanceAs (Decidable (_ ∧ _))

def apply (rows : Finset IndexEntry) : RowChange → Finset IndexEntry
  | insert row => Insert.insert row rows
  | delete row => rows.erase row
  | update old new => Insert.insert new (rows.erase old)

/-- The index maintenance of `insert_row`, `delete_row` and `update_row`. -/
def entryChanges : RowChange → List EntryChange
  | insert row => [.add row]
  | delete row => [.drop row]
  | update old new => [.drop old, .add new]

end RowChange

/-! ## Sessions -/

/-- Where `rebuild_index` is: before its `reset`, in the scan, with the pages that are still to be
read and the rows of the current page, or stopped by an entry that was refused. -/
inductive RebuildStage where
  | opened
  | scanning (pages : List Nat) (fetched : Finset IndexEntry)
  | stopped
deriving DecidableEq

/-- A statement on the table: its change, what is still to be done to the index, the `IndexFile`
it has open with whether its change is still to come, whether an entry was refused, and the entries
from before its first `IndexFile`, which are in the before images of the log. -/
structure StatementRun where
  change : RowChange
  todo : List EntryChange
  handle : Option (List IndexEntry × Bool)
  failed : Bool
  fileBefore : Option (List IndexEntry)
deriving DecidableEq

/-- What a session is at, with the copy of the entries in its `IndexFile`; a lookup has the record
ids that it has still to read once `find` has returned them. -/
inductive IndexTask where
  | idle
  | lookup (copy : List IndexEntry) (found : Option (List RecordId))
  | rebuild (copy : List IndexEntry) (stage : RebuildStage)
  | statement (run : StatementRun)
deriving DecidableEq

/-- The rows of the table, the entries in the index file, and the session with the exclusive lock. -/
structure IndexState (Session : Type) where
  rows : Finset IndexEntry
  file : List IndexEntry
  writer : Option Session
  tasks : Session → IndexTask

namespace IndexState

inductive Action (Session : Type) where
  | openLookup (t : Session)
  | find (t : Session) (recordIds : List RecordId)
  | readRow (t : Session)
  | closeLookup (t : Session)
  | openRebuild (t : Session)
  | reset (t : Session) (pageCount : Nat)
  | fetchPage (t : Session)
  | insertRow (t : Session) (row : IndexEntry)
  | closeRebuild (t : Session)
  | begin (t : Session) (change : RowChange)
  | openIndex (t : Session)
  | changeIndex (t : Session)
  | closeIndex (t : Session)
  | fail (t : Session)
  | commit (t : Session)
  | abort (t : Session)

variable {Session : Type} [DecidableEq Session]

def setTask (s : IndexState Session) (t : Session) (task : IndexTask) : IndexState Session :=
  { s with tasks := Function.update s.tasks t task }

/-- The session writes these entries to the file. -/
def write (s : IndexState Session) (entries : List IndexEntry) : IndexState Session :=
  { s with file := entries }

/-- The flush of a change, which is left out where nothing has changed. -/
def flush (s : IndexState Session) (copy entries : List IndexEntry) : IndexState Session :=
  s.write (if entries = copy then s.file else entries)

/-- A step of a lookup. A row is read under the shared lock of the table, and the destructor of the
`IndexFile` writes the copy back. -/
def nextLookup (s : IndexState Session) (t : Session) (copy : List IndexEntry)
    (found : Option (List RecordId)) : Action Session → Option (IndexState Session)
  | .find _ recordIds =>
    if found = none then some (s.setTask t (.lookup copy (some recordIds))) else none
  | .readRow _ =>
    match found with
    | some (_ :: rest) =>
      if s.writer = none then some (s.setTask t (.lookup copy (some rest))) else none
    | _ => none
  | .closeLookup _ =>
    if found = some [] then some ((s.write copy).setTask t .idle) else none
  | _ => none

/-- A step of `rebuild_index`, which takes no lock. -/
def nextRebuild (unique : Bool) (s : IndexState Session) (t : Session) (copy : List IndexEntry) :
    RebuildStage → Action Session → Option (IndexState Session)
  | .opened, .reset _ pageCount =>
    if ∀ r ∈ s.rows, r.recordId.pageId < pageCount then
      some ((s.write []).setTask t (.rebuild [] (.scanning (List.range pageCount) ∅)))
    else none
  | .scanning (page :: pages) fetched, .fetchPage _ =>
    if fetched = ∅ then
      some (s.setTask t (.rebuild copy
        (.scanning pages (s.rows.filter fun r => r.recordId.pageId = page))))
    else none
  | .scanning pages fetched, .insertRow _ row =>
    if row ∈ fetched then
      match insertInMemory unique copy row with
      | some entries =>
        some ((s.flush copy entries).setTask t
          (.rebuild entries (.scanning pages (fetched.erase row))))
      | none => some (s.setTask t (.rebuild copy .stopped))
    else none
  | .scanning [] fetched, .closeRebuild _ =>
    if fetched = ∅ then some ((s.write copy).setTask t .idle) else none
  | .stopped, .closeRebuild _ => some ((s.write copy).setTask t .idle)
  | _, _ => none

/-- A step of a statement under the exclusive lock. The pages of the table are written when the
statement ends. A refused entry makes it undo what it has done to the index, and so does the failure
of another index, of the table file or of the log. -/
def nextStatement (unique : Bool) (s : IndexState Session) (t : Session) (run : StatementRun) :
    Action Session → Option (IndexState Session)
  | .openIndex _ =>
    if run.handle = none ∧ run.failed = false ∧ run.todo ≠ [] then
      some (s.setTask t (.statement { run with
        handle := some (s.file, true), fileBefore := some (run.fileBefore.getD s.file) }))
    else none
  | .changeIndex _ =>
    match run.handle, run.todo with
    | some (copy, true), change :: rest =>
      match change.apply unique copy with
      | some entries =>
        some ((s.flush copy entries).setTask t
          (.statement { run with todo := rest, handle := some (entries, false) }))
      | none => some (s.setTask t (.statement { run with handle := some (copy, false), failed := true }))
    | _, _ => none
  | .closeIndex _ =>
    match run.handle with
    | some (copy, false) =>
      some ((s.write copy).setTask t (.statement { run with handle := none }))
    | _ => none
  | .fail _ =>
    if run.handle = none then some (s.setTask t (.statement { run with failed := true })) else none
  | .commit _ =>
    if run.handle = none ∧ run.failed = false ∧ run.todo = [] then
      some ({ s with rows := run.change.apply s.rows, writer := none }.setTask t .idle)
    else none
  | .abort _ =>
    if run.handle = none ∧ run.failed = true then
      some ({ s.write (run.fileBefore.getD s.file) with writer := none }.setTask t .idle)
    else none
  | _ => none

/-- The session that takes the step. -/
def Action.session : Action Session → Session
  | openLookup t => t
  | find t _ => t
  | readRow t => t
  | closeLookup t => t
  | openRebuild t => t
  | reset t _ => t
  | fetchPage t => t
  | insertRow t _ => t
  | closeRebuild t => t
  | begin t _ => t
  | openIndex t => t
  | changeIndex t => t
  | closeIndex t => t
  | fail t => t
  | commit t => t
  | abort t => t

def next (unique : Bool) (s : IndexState Session) (a : Action Session) :
    Option (IndexState Session) :=
  match s.tasks a.session with
  | .idle =>
    match a with
    | .openLookup t => some (s.setTask t (.lookup s.file none))
    | .openRebuild t => some (s.setTask t (.rebuild s.file .opened))
    | .begin t change =>
      if s.writer = none ∧ change.Allowed s.rows then
        some ({ s with writer := some t }.setTask t
          (.statement ⟨change, change.entryChanges, none, false, none⟩))
      else none
    | _ => none
  | .lookup copy found => s.nextLookup a.session copy found a
  | .rebuild copy stage => s.nextRebuild unique a.session copy stage a
  | .statement run => s.nextStatement unique a.session run a

end IndexState

/-- The sessions on an empty table with a new index. -/
def indexMachine (Session : Type) [DecidableEq Session] (unique : Bool) :
    Machine (IndexState Session) (IndexState.Action Session) where
  init := ⟨∅, [], none, fun _ => .idle⟩
  next := IndexState.next unique

end ScratchDb
