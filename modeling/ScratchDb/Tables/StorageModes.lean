import ScratchDb.Indexes.IndexKey
import ScratchDb.Indexes.SharedIndex
import ScratchDb.Query.Database

/-!
# The two storage modes

The operations of `Database` on the rows of one table, kept in memory or on disk,
and the transactions of one session around them. On disk the place of a row is
chosen by the table file and is an input of the model; the log is left out: a
statement outside a transaction that fails leaves the table as it was, and a
rollback puts it back as it was at `begin_transaction`.
-/

namespace ScratchDb.StorageModes

/-- The key of a row in an index; `none` where the column or the value is missing. -/
def indexKey (schema : Schema) (index : IndexDefinition) (values : List Value) : Option Bytes := do
  let name ← index.columns.head?
  let i ← schema.columnIndex name
  let column ← schema.columns[i]?
  let value ← values[i]?
  makeIndexKey column value

/-! ## Memory tables -/

structure MemoryTableStore where
  nextPageId : Nat := 1
  rows : List (Option (List Value)) := []

namespace MemoryTableStore

/-- Some live row other than the one at `skip` has the key. -/
def keyTaken (schema : Schema) (t : MemoryTableStore) (index : IndexDefinition) (key : Bytes)
    (skip : Option Nat) : Bool :=
  t.rows.zipIdx.any fun r =>
    some r.2 ≠ skip && r.1.any fun values => indexKey schema index values = some key

/-- The loop over the unique indexes. -/
def uniqueKeysFree (schema : Schema) (t : MemoryTableStore) (values : List Value)
    (skip : Option Nat) : Bool :=
  schema.indexes.all fun index =>
    !index.unique ||
      match indexKey schema index values with
      | none => false
      | some key => !t.keyTaken schema index key skip

/-- `insert_memory_row`. -/
def insertMemoryRow (schema : Schema) (t : MemoryTableStore) (values : List Value) :
    Option RecordId × MemoryTableStore :=
  if t.uniqueKeysFree schema values none then
    (some ⟨t.nextPageId, 0⟩,
      { nextPageId := (t.nextPageId + 1) % 2 ^ 32, rows := t.rows ++ [some values] })
  else (none, t)

/-- The index of a live row in the vector. -/
def position (t : MemoryTableStore) (recordId : RecordId) : Option Nat :=
  if recordId.pageId = 0 || recordId.slotId ≠ 0 then none
  else if (t.rows[recordId.pageId - 1]?.getD none).isSome then some (recordId.pageId - 1)
  else none

def readMemoryRow (t : MemoryTableStore) (recordId : RecordId) : Option (List Value) :=
  (t.position recordId).bind fun i => t.rows[i]?.getD none

def scanMemoryRows (t : MemoryTableStore) : List (List Value) := t.rows.filterMap id

def deleteMemoryRow (t : MemoryTableStore) (recordId : RecordId) : Bool × MemoryTableStore :=
  match t.position recordId with
  | none => (false, t)
  | some i => (true, { t with rows := t.rows.set i none })

def updateMemoryRow (schema : Schema) (t : MemoryTableStore) (recordId : RecordId)
    (values : List Value) : Option RecordId × MemoryTableStore :=
  match t.position recordId with
  | none => (none, t)
  | some i =>
    if t.uniqueKeysFree schema values (some i) then
      (some recordId, { t with rows := t.rows.set i (some values) })
    else (none, t)

end MemoryTableStore

/-! ## Disk tables -/

/-- The places of a table file. -/
abbrev Place := { recordId : RecordId // recordId.Fits }

def Place.entry (place : Place) (key : Bytes) : IndexEntry := ⟨key, place.1, place.2⟩

structure DiskTable where
  rows : List (Place × List Value)
  /-- the index files with the entries they list -/
  indexes : List (IndexDefinition × List IndexEntry)

namespace DiskTable

def create (schema : Schema) : DiskTable := ⟨[], schema.indexes.map fun index => (index, [])⟩

def rowAt (t : DiskTable) (place : Place) : Option (List Value) :=
  (t.rows.find? fun r => r.1 = place).map (·.2)

/-- The loop over the indexes, until one refuses its entry. -/
def changeIndexes (change : IndexDefinition → List IndexEntry → Bool × List IndexEntry) :
    List (IndexDefinition × List IndexEntry) → Bool × List (IndexDefinition × List IndexEntry)
  | [] => (true, [])
  | (index, entries) :: rest =>
    let changed := change index entries
    if changed.1 then
      let rest := changeIndexes change rest
      (rest.1, (index, changed.2) :: rest.2)
    else (false, (index, changed.2) :: rest)

def addEntry (schema : Schema) (place : Place) (values : List Value) (index : IndexDefinition)
    (entries : List IndexEntry) : Bool × List IndexEntry :=
  match indexKey schema index values with
  | none => (false, entries)
  | some key =>
    match insertInMemory index.unique entries (place.entry key) with
    | none => (false, entries)
    | some entries => (true, entries)

def dropEntry (schema : Schema) (place : Place) (values : List Value) (index : IndexDefinition)
    (entries : List IndexEntry) : List IndexEntry :=
  match indexKey schema index values with
  | none => entries
  | some key => removeInMemory entries (place.entry key)

/-- `insert_row` behind the begin record. Where it fails, an undo is all that can follow. -/
def insertRow (schema : Schema) (place : Place) (t : DiskTable) (values : List Value) :
    Option Place × DiskTable :=
  let changed := changeIndexes (addEntry schema place values) t.indexes
  (if changed.1 then some place else none,
    ⟨t.rows ++ [(place, values.map Value.padded)], changed.2⟩)

def deleteRow (schema : Schema) (t : DiskTable) (place : Place) : Bool × DiskTable :=
  match t.rowAt place with
  | none => (false, t)
  | some old =>
    (true,
      ⟨t.rows.filter fun r => r.1 ≠ place,
        t.indexes.map fun p => (p.1, dropEntry schema place old p.1 p.2)⟩)

/-- The row goes to `newPlace`, which is its own where it has room for the record. -/
def updateRow (schema : Schema) (newPlace : Place) (t : DiskTable) (place : Place)
    (values : List Value) : Option Place × DiskTable :=
  match t.rowAt place with
  | none => (none, t)
  | some old =>
    let changed := changeIndexes
      (fun index entries =>
        addEntry schema newPlace values index (dropEntry schema place old index entries)) t.indexes
    (if changed.1 then some newPlace else none,
      ⟨(t.rows.filter fun r => r.1 ≠ place) ++ [(newPlace, values.map Value.padded)], changed.2⟩)

end DiskTable

/-! ## Sessions -/

/-- The requests that `Database` passes on to a storage mode. -/
structure Engine (T Id : Type) where
  insert : T → List Value → Option Id × T
  update : T → Id → List Value → Option Id × T
  delete : T → Id → Bool × T
  read : T → Id → Option (List Value)
  scan : T → List (List Value)
  /-- the statements are logged: one that fails is undone, or aborts the open transaction -/
  logged : Bool

def memoryEngine (schema : Schema) : Engine MemoryTableStore RecordId where
  insert := MemoryTableStore.insertMemoryRow schema
  update := MemoryTableStore.updateMemoryRow schema
  delete := MemoryTableStore.deleteMemoryRow
  read := MemoryTableStore.readMemoryRow
  scan := MemoryTableStore.scanMemoryRows
  logged := false

/-- `place` is where the table file puts the record of the call, if it writes one. -/
def diskEngine (schema : Schema) (place : Place) : Engine DiskTable Place where
  insert := DiskTable.insertRow schema place
  update := DiskTable.updateRow schema place
  delete := DiskTable.deleteRow schema
  read := DiskTable.rowAt
  scan := fun t => t.rows.map (·.2)
  logged := true

structure Session (T Id : Type) where
  table : T
  /-- the record ids that `insert_row` has returned, as `update_row` has changed them -/
  recordIds : List Id
  inTransaction : Bool
  transactionAborted : Bool
  /-- the table at `begin_transaction` -/
  atBegin : T

def Session.start {T Id : Type} (table : T) : Session T Id := ⟨table, [], false, false, table⟩

/-- A call; a row is named by the insertion that has returned its record id. -/
inductive Call where
  | beginTransaction
  | commitTransaction
  | rollbackTransaction
  | insertRow (values : List Value)
  | updateRow (row : Nat) (values : List Value)
  | deleteRow (row : Nat)
  | readRow (row : Nat)
  | scanRows
deriving DecidableEq

/-- Whether the call succeeds, and the row it reads. -/
structure Reply where
  ok : Bool
  row : Option (List Value) := none
deriving DecidableEq, Repr

namespace Session

variable {T Id : Type} (e : Engine T Id) (schema : Schema) (s : Session T Id)

/-- `acquire_transaction_lock` answers false. -/
def refuses : Bool := s.inTransaction && s.transactionAborted

/-- A statement that has failed, and left `table`. -/
def failedStatement (table : T) : Session T Id :=
  if e.logged then
    if s.inTransaction then { s with table, transactionAborted := true } else s
  else { s with table }

/-- The rows that `scan_rows` returns. -/
def scanRows : List (List Value) := if s.refuses then [] else e.scan s.table

def insertRow (values : List Value) : Reply × Session T Id :=
  if s.refuses || !schema.accepts values then (⟨false, none⟩, s)
  else
    match e.insert s.table values with
    | (some id, table) => (⟨true, none⟩, { s with table, recordIds := s.recordIds ++ [id] })
    | (none, table) => (⟨false, none⟩, s.failedStatement e table)

def updateRow (row : Nat) (id : Id) (values : List Value) : Reply × Session T Id :=
  if s.refuses || !schema.accepts values then (⟨false, none⟩, s)
  else
    match e.update s.table id values with
    | (some id, table) => (⟨true, none⟩, { s with table, recordIds := s.recordIds.set row id })
    | (none, table) => (⟨false, none⟩, s.failedStatement e table)

def deleteRow (id : Id) : Reply × Session T Id :=
  if s.refuses then (⟨false, none⟩, s)
  else
    match e.delete s.table id with
    | (true, table) => (⟨true, none⟩, { s with table })
    | (false, table) => (⟨false, none⟩, s.failedStatement e table)

def readRow (id : Id) : Reply :=
  if s.refuses then ⟨false, none⟩
  else ⟨(e.read s.table id).isSome, e.read s.table id⟩

def beginTransaction : Reply × Session T Id :=
  if s.inTransaction then (⟨false, none⟩, s)
  else
    (⟨true, none⟩, { s with inTransaction := true, transactionAborted := false, atBegin := s.table })

def commitTransaction : Reply × Session T Id :=
  if !s.inTransaction || s.transactionAborted then (⟨false, none⟩, s)
  else (⟨true, none⟩, { s with inTransaction := false })

/-- Only what has been logged is undone. -/
def rollbackTransaction : Reply × Session T Id :=
  if !s.inTransaction then (⟨false, none⟩, s)
  else
    (⟨true, none⟩,
      { s with
        table := if e.logged then s.atBegin else s.table
        inTransaction := false
        transactionAborted := false })

/-- A row that no insertion has returned is not asked for. -/
def call : Call → Reply × Session T Id
  | .beginTransaction => s.beginTransaction
  | .commitTransaction => s.commitTransaction
  | .rollbackTransaction => s.rollbackTransaction e
  | .insertRow values => s.insertRow e schema values
  | .updateRow row values =>
    match s.recordIds[row]? with
    | none => (⟨false, none⟩, s)
    | some id => s.updateRow e schema row id values
  | .deleteRow row =>
    match s.recordIds[row]? with
    | none => (⟨false, none⟩, s)
    | some id => s.deleteRow e id
  | .readRow row =>
    match s.recordIds[row]? with
    | none => (⟨false, none⟩, s)
    | some id => (s.readRow e id, s)
  | .scanRows => (⟨!s.refuses, none⟩, s)

end Session

end ScratchDb.StorageModes
