import ScratchDb.Catalog.SchemaText
import ScratchDb.Indexes.IndexKey
import ScratchDb.Query.Database
import ScratchDb.Sessions.TransactionIds

/-!
# The first operation of a database object

Model of the operations of `Database` on a new object, as they read the catalog,
ask for an id, open and recover the log and read or write files. The code of rows,
table files and index files is a parameter; an operation that writes logs and
writes what this code tells it, given the files at that moment.
-/

namespace ScratchDb.FirstUse

open LoggedDatabase

/-- What an index file is asked for. -/
inductive IndexSearch where
  | key (key : Bytes)
  | range (lower : Option Bytes) (includeLower : Bool) (upper : Option Bytes) (includeUpper : Bool)

inductive Request where
  | addConstraint (tableName : String) (constraint : ConstraintDefinition)
  | dropConstraint (tableName : String) (constraintId : Nat)
  | createIndex (tableName indexName columnName : String) (unique : Bool)
  | dropIndex (tableName indexName : String)
  | insertRow (tableName : String) (row : List Value)
  | updateRow (tableName : String) (recordId : RecordId) (row : List Value)
  | deleteRow (tableName : String) (recordId : RecordId)
  | scanRows (tableName : String)
  | loadSchema (tableName : String)
  | findRowsByIndex (tableName columnName : String) (value : Value)
  | findRowsByIndexRange (tableName columnName : String) (lower : Option Value) (includeLower : Bool)
      (upper : Option Value) (includeUpper : Bool)

/-- What an operation returns. -/
inductive Answer where
  | done (ok : Bool)
  | inserted (recordId : Option RecordId)
  | updated (ok : Bool) (recordId : RecordId)
  | scanned (ok : Bool) (rows : List TableRow)
  | schema (schema : Option SchemaParts)
  | found (rows : Option (List TableRow))
deriving DecidableEq, Repr

/-- The code of records, table files, index files and memory tables. -/
structure StorageCode where
  /-- `RecordSerializer::serialize` -/
  serialize : Schema → List Value → Option Bytes
  /-- what follows the begin record of an insertion, on these files, and the place of the row -/
  insertBody : Schema → Bytes → List Value → FileSystem → StatementBody × RecordId
  updateBody : Schema → RecordId → Bytes → List Value → FileSystem → StatementBody × RecordId
  /-- without a schema where its text cannot be read -/
  deleteBody : Option Schema → RecordId → FileSystem → StatementBody
  rebuildIndex : Schema → IndexDefinition → FileSystem → StatementBody
  /-- `scan_records` and `read_record` with the deserializer, on the pages of a table file -/
  scan : Schema → List Page → Bool × List TableRow
  read : Schema → List Page → RecordId → Option (List Value)
  /-- the requests for memory tables -/
  memoryTable : Schema → Request → Answer
  memoryRow : Schema → RecordId → Option (List Value)
  Index : Type
  /-- `IndexFile::load`; a new file is written -/
  openIndex : List Page → Option (Index × List Page)
  search : Index → List Page → IndexSearch → List RecordId
  /-- the destructor of `IndexFile`, which writes the entries it has loaded -/
  closeIndex : Index → List Page → List Page

/-- The bytes of a text of one-byte characters. -/
def textBytes (text : List Char) : Bytes := text.map fun c => UInt8.ofNat c.toNat

def bytesText (bytes : Bytes) : List Char := bytes.map fun b => Char.ofNat b.toNat

def withPages (fs : FileSystem) (file : Path) (blocks : List Page) : FileSystem :=
  { fs with pages := fun p => if p = file then some blocks else fs.pages p }

/-- What an operation comes to before it needs the log. -/
inductive Early (α : Type) where
  | answers (answer : Answer)
  | throws
  | goesOn (work : α)

def Early.isOver {α : Type} : Early α → Bool
  | .goesOn _ => false
  | _ => true

/-- An operation that writes, from its begin record on. -/
structure Write where
  shape : StatementShape
  body : FileSystem → StatementBody
  answer : Bool → FileSystem → Answer

/-! ## Paths and the catalog -/

section Catalog

variable (root : Bytes) (fs : FileSystem) (tableName : String)

def tableDirectoryPath : Bytes := joinPath root (textBytes tableName.toList)

def schemaFilePath : Path := pathOf (joinPath (tableDirectoryPath root tableName) schemaFileName)

def tableFilePath : Path := pathOf (joinPath (tableDirectoryPath root tableName) tableFileName)

/-- `index_<id>.idx`. -/
def indexFilePath (index : IndexDefinition) : Path :=
  pathOf (joinPath (tableDirectoryPath root tableName)
    (textBytes ("index_".toList ++ decimal index.id ++ ".idx".toList)))

/-- `Catalog::table_exists`. -/
def catalogTableExists : Bool :=
  fs.isDirectory (pathOf (tableDirectoryPath root tableName)) &&
    (fs.text (schemaFilePath root tableName)).isSome && (fs.pages (tableFilePath root tableName)).isSome

/-- `Catalog::load_schema`. -/
def catalogLoadSchema : Except ReadFailure Schema :=
  if catalogTableExists root fs tableName then
    match fs.text (schemaFilePath root tableName) with
    | some text => readSchemaFile (bytesText text)
    | none => .error .nullopt
  else .error .nullopt

def schemaText (schema : SchemaParts) : Bytes := textBytes (serializeSchema schema)

/-- `replace_table_schema`, behind its record in the log. -/
def replaceSchemaSteps (old new : Schema) : StatementBody :=
  let logged : StatementStep :=
    .log .schemaUpdate (tableDirectoryPath root tableName) noPageId (schemaText old.toSchemaParts)
      (schemaText new.toSchemaParts)
  if fs.isDirectory (pathOf root) && catalogTableExists root fs new.tableName then
    { steps := [logged, .files fun fs =>
        (Effect.replaceText (schemaFilePath root new.tableName) (schemaText new.toSchemaParts)).applyFs fs]
      ending := .succeeds }
  else { steps := [logged], ending := .fails }

end Catalog

/-! ## Before the log -/

section Early

variable (code : StorageCode) (root : Bytes) (fs : FileSystem) (tableName : String)

/-- An operation that needs the schema of its table. -/
def withLoaded {α : Type} (missing : Answer) (f : Schema → Early α) : Early α :=
  match catalogLoadSchema root fs tableName with
  | .error .nullopt => .answers missing
  | .error .exception => .throws
  | .ok schema => f schema

/-- The constructor of `Schema`, where an exception is answered by `false`. -/
def withUpdated (parts : SchemaParts) (f : Schema → Early Write) : Early Write :=
  match Schema.make parts with
  | .error _ => .answers (.done false)
  | .ok updated => f updated

def replaceSchema (old new : Schema) : Early Write :=
  .goesOn
    { shape := {}
      body := fun fs => replaceSchemaSteps root fs tableName old new
      answer := fun ok _ => .done ok }

def nextId (ids : List Nat) : Nat := ids.foldl (fun next id => if next ≤ id then id + 1 else next) 1

def addConstraintEarly (constraint : ConstraintDefinition) : Early Write :=
  withLoaded root fs tableName (.done false) fun schema =>
    withUpdated
      { schema.toSchemaParts with
        constraints := schema.constraints ++
          [{ constraint with id := nextId (schema.constraints.map (·.id)) }] }
      (replaceSchema root tableName schema)

def dropConstraintEarly (constraintId : Nat) : Early Write :=
  withLoaded root fs tableName (.done false) fun schema =>
    if schema.constraints.any (·.id = constraintId) then
      withUpdated
        { schema.toSchemaParts with
          constraints := schema.constraints.filter (·.id ≠ constraintId) }
        (replaceSchema root tableName schema)
    else .answers (.done false)

def createIndexEarly (indexName columnName : String) (unique : Bool) : Early Write :=
  withLoaded root fs tableName (.done false) fun schema =>
    if (schema.columnIndex columnName).isNone then .answers (.done false)
    else if schema.indexes.any fun i => i.name = indexName || i.columns = [columnName] then
      .answers (.done false)
    else
      let index : IndexDefinition :=
        ⟨nextId (schema.indexes.map (·.id)), indexName, [columnName], unique⟩
      withUpdated { schema.toSchemaParts with indexes := schema.indexes ++ [index] } fun updated =>
        .goesOn
          { shape := {}
            body := fun fs =>
              -- a memory table has no index file to be built
              if schema.storageMode = .memory then replaceSchemaSteps root fs tableName schema updated
              else
                let rebuilt := code.rebuildIndex schema index fs
                match rebuilt.ending with
                | .succeeds =>
                  let rest := replaceSchemaSteps root fs tableName schema updated
                  { rest with steps := rebuilt.steps ++ rest.steps }
                | _ => rebuilt
            answer := fun ok _ => .done ok }

def dropIndexEarly (indexName : String) : Early Write :=
  withLoaded root fs tableName (.done false) fun schema =>
    if schema.indexes.any (·.name = indexName) then
      withUpdated
        { schema.toSchemaParts with indexes := schema.indexes.filter (·.name ≠ indexName) }
        (replaceSchema root tableName schema)
    else .answers (.done false)

def insertRowEarly (row : List Value) : Early Write :=
  withLoaded root fs tableName (.inserted none) fun schema =>
    match code.serialize schema row with
    | none => .answers (.inserted none)
    | some record =>
      if schema.storageMode = .memory then
        .answers (code.memoryTable schema (.insertRow tableName row))
      else
        .goesOn
          { shape := { abortsUnfinished := true, abortsOnThrow := true }
            body := fun fs => (code.insertBody schema record row fs).1
            answer := fun ok fs =>
              .inserted (if ok then some (code.insertBody schema record row fs).2 else none) }

def updateRowEarly (recordId : RecordId) (row : List Value) : Early Write :=
  withLoaded root fs tableName (.updated false recordId) fun schema =>
    match code.serialize schema row with
    | none => .answers (.updated false recordId)
    | some record =>
      if schema.storageMode = .memory then
        .answers (code.memoryTable schema (.updateRow tableName recordId row))
      else
        .goesOn
          { shape := { abortsOnThrow := true }
            body := fun fs => (code.updateBody schema recordId record row fs).1
            answer := fun ok fs => .updated ok (code.updateBody schema recordId record row fs).2 }

/-- A table whose schema text is no schema is written all the same. -/
def deleteRowEarly (recordId : RecordId) : Early Write :=
  if catalogTableExists root fs tableName = false then .answers (.done false)
  else
    let write (schema : Option Schema) : Early Write :=
      .goesOn
        { shape := { abortsOnThrow := true }
          body := code.deleteBody schema recordId
          answer := fun ok _ => .done ok }
    match catalogLoadSchema root fs tableName with
    | .error .exception => .throws
    | .error .nullopt => write none
    | .ok schema =>
      if schema.storageMode = .memory then
        .answers (code.memoryTable schema (.deleteRow tableName recordId))
      else write (some schema)

/-- What `scan_rows` and `read_row` find in the catalog. -/
def readEarly (request : Request) (missing : Answer) : Early Schema :=
  withLoaded root fs tableName missing fun schema =>
    if schema.storageMode = .memory then .answers (code.memoryTable schema request)
    else .goesOn schema

/-- The key of a bound; `none` inside where the value has none. -/
def boundKey (column : Column) : Option Value → Option (Option Bytes)
  | none => some none
  | some value => (makeIndexKey column value).map some

/-- The index file that is searched, and for what. -/
def findEarly (request : Request) (columnName : String) (search : Column → Option IndexSearch) :
    Early (Path × IndexSearch) :=
  withLoaded root fs tableName (.found none) fun schema =>
    match schema.findColumn columnName with
    | none => .answers (.found none)
    | some column =>
      match schema.indexes.find? fun i => i.columns = [columnName] with
      | none => .answers (.found none)
      | some index =>
        match search column with
        | none => .answers (.found none)
        | some search =>
          if schema.storageMode = .memory then .answers (code.memoryTable schema request)
          else .goesOn (indexFilePath root tableName index, search)

end Early

/-! ## The operations -/

section Operations

variable (code : StorageCode) (root : Bytes)

/-- The common course of the operations that write: the id is asked for before the log is opened. -/
def performWrite (early : FileSystem → Early Write) : DatabaseIo Answer := do
  let s ← Prog.get
  match early s.disk.fs with
  | .answers answer => pure answer
  | .throws => Prog.stop .exception
  | .goesOn write => do
    let transactionId ← currentTransactionId
    let logged ← walManager
    let t ← Prog.get
    let ok ← logStatement write.shape (write.body t.disk.fs) logged transactionId
    pure (write.answer ok t.disk.fs)

/-- The constructor of `TableFile` creates the file; `false` where it cannot. -/
def openTableFile (file : Path) : DatabaseIo Bool := do
  let s ← Prog.get
  if s.disk.fs.parentExists file then
    Prog.modify fun s =>
      { s with disk := { s.disk with fs := (Effect.openCreate file).applyFs s.disk.fs } }
    pure true
  else pure false

def performScan (tableName : String) : DatabaseIo Answer := do
  let s ← Prog.get
  match readEarly code root s.disk.fs tableName (.scanRows tableName) (.scanned false []) with
  | .answers answer => pure answer
  | .throws => Prog.stop .exception
  | .goesOn schema => do
    let _ ← walManager
    if ← openTableFile (tableFilePath root tableName) then
      let t ← Prog.get
      let result := code.scan schema ((t.disk.fs.pages (tableFilePath root tableName)).getD [])
      pure (.scanned result.1 result.2)
    else pure (.scanned false [])

/-- `read_row`. -/
def readRow (tableName : String) (recordId : RecordId) : DatabaseIo (Option (List Value)) := do
  let s ← Prog.get
  match catalogLoadSchema root s.disk.fs tableName with
  | .error .exception => Prog.stop .exception
  | .error .nullopt => pure none
  | .ok schema =>
    if schema.storageMode = .memory then pure (code.memoryRow schema recordId)
    else do
      let _ ← walManager
      if ← openTableFile (tableFilePath root tableName) then
        let t ← Prog.get
        pure (code.read schema ((t.disk.fs.pages (tableFilePath root tableName)).getD []) recordId)
      else pure none

/-- The loop over the record ids of the index. -/
def readRows (tableName : String) : List RecordId → DatabaseIo (List TableRow)
  | [] => pure []
  | recordId :: recordIds => do
    let row ← readRow code root tableName recordId
    let rows ← readRows tableName recordIds
    match row with
    | none => pure rows
    | some values => pure (⟨recordId, values⟩ :: rows)

def setPages (file : Path) (blocks : List Page) : DatabaseIo Unit :=
  Prog.modify fun s => { s with disk := { s.disk with fs := withPages s.disk.fs file blocks } }

/-- The destructor of the index file. -/
def closeIndexFile (file : Path) (index : code.Index) : DatabaseIo Unit := do
  let s ← Prog.get
  setPages file (code.closeIndex index ((s.disk.fs.pages file).getD []))

/-- The blocks of an index file that is opened with `O_CREAT`. -/
def indexBlocks (fs : FileSystem) (file : Path) : Option (List Page) :=
  if (fs.pages file).isSome || fs.parentExists file then some ((fs.pages file).getD []) else none

/-- The index file is opened without the log, and closed after the rows have been read. -/
def performFind (tableName : String) (early : FileSystem → Early (Path × IndexSearch)) :
    DatabaseIo Answer := do
  let s ← Prog.get
  match early s.disk.fs with
  | .answers answer => pure answer
  | .throws => Prog.stop .exception
  | .goesOn (file, search) =>
    match indexBlocks s.disk.fs file with
    | none => Prog.stop .exception
    | some blocks =>
      match code.openIndex blocks with
      | none => do
        setPages file blocks
        Prog.stop .exception
      | some (index, opened) => do
        setPages file opened
        let rows ← (readRows code root tableName (code.search index opened search)).ensuring
          (closeIndexFile code file index)
        pure (.found (some rows))

/-- `load_schema` needs no log. -/
def performLoadSchema (tableName : String) : DatabaseIo Answer := do
  let s ← Prog.get
  match catalogLoadSchema root s.disk.fs tableName with
  | .error .exception => Prog.stop .exception
  | .error .nullopt => pure (.schema none)
  | .ok schema => pure (.schema (some schema.toSchemaParts))

end Operations

/-! ## Requests -/

/-- The course that an operation takes. -/
inductive Course where
  | write (early : FileSystem → Early Write)
  | scan (tableName : String)
  | loadSchema (tableName : String)
  | find (tableName : String) (early : FileSystem → Early (Path × IndexSearch))

section Requests

variable (code : StorageCode) (root : Bytes)

def course (request : Request) : Course :=
  match request with
  | .addConstraint tableName constraint =>
    .write fun fs => addConstraintEarly root fs tableName constraint
  | .dropConstraint tableName id => .write fun fs => dropConstraintEarly root fs tableName id
  | .createIndex tableName indexName columnName unique =>
    .write fun fs => createIndexEarly code root fs tableName indexName columnName unique
  | .dropIndex tableName indexName => .write fun fs => dropIndexEarly root fs tableName indexName
  | .insertRow tableName row => .write fun fs => insertRowEarly code root fs tableName row
  | .updateRow tableName recordId row =>
    .write fun fs => updateRowEarly code root fs tableName recordId row
  | .deleteRow tableName recordId => .write fun fs => deleteRowEarly code root fs tableName recordId
  | .scanRows tableName => .scan tableName
  | .loadSchema tableName => .loadSchema tableName
  | .findRowsByIndex tableName columnName value =>
    .find tableName fun fs => findEarly code root fs tableName request columnName fun column =>
      (makeIndexKey column value).map IndexSearch.key
  | .findRowsByIndexRange tableName columnName lower includeLower upper includeUpper =>
    .find tableName fun fs => findEarly code root fs tableName request columnName fun column => do
      let lower ← boundKey column lower
      let upper ← boundKey column upper
      pure (.range lower includeLower upper includeUpper)

def Course.run : Course → DatabaseIo Answer
  | .write early => performWrite early
  | .scan tableName => performScan code root tableName
  | .loadSchema tableName => performLoadSchema root tableName
  | .find tableName early => performFind code root tableName early

/-- An operation of a database at `root`. -/
def run (request : Request) : DatabaseIo Answer := (course code root request).run code root

end Requests

end ScratchDb.FirstUse
