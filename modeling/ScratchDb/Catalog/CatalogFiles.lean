import ScratchDb.Catalog.SchemaText
import ScratchDb.Lib.CutRuns
import ScratchDb.Lib.DurableFiles

/-!
# The files of the catalog

Model of `src/catalog/catalog.cpp`: databases are directories of the data root,
tables are directories of a database with a data file and a schema file, and a
schema file is replaced by writing a temporary file, syncing it, renaming it and
syncing the directory. Every system call can fail, and the program can stop after
any of them. A name is one component of a path.
-/

namespace ScratchDb

open DurableFiles Passage

/-- The files of the data root, whose number is 0. -/
abbrev CatalogFiles := Files String Char

/-- `std::filesystem::remove` and `remove_all` without an error code throw. -/
inductive FilesystemError where
  | thrown
deriving DecidableEq

abbrev CatalogIo := Prog FilesystemError (Passage CatalogFiles)

namespace Catalog

def schemaFile : String := "schema.catalog"

/-- `path.string() + ".tmp"`. -/
def tempFile : String := "schema.catalog.tmp"

def tableFile : String := "data.tbl"

/-! ## What the system answers -/

/-- `fsync` and `close`. -/
structure SyncAnswers where
  synced : Bool
  closed : Bool

/-- `create_directories` and the sync of the parent directory. -/
structure DirectoryAnswers where
  created : Bool
  parent : SyncAnswers

structure EmptyFileAnswers where
  opened : Bool
  file : SyncAnswers
  /-- `remove` of the file after a failure; it throws where this is false -/
  removed : Bool
  parent : SyncAnswers

structure SchemaFileAnswers where
  opened : Bool
  /-- how many bytes each `write` takes; 0 where it fails -/
  written : List Nat
  file : SyncAnswers
  renamed : Bool
  removed : Bool
  parent : SyncAnswers

/-- The entries that `remove_all` removes, in its order, as paths below the directory. -/
structure RemoveAnswers where
  removals : List (List String)
  parent : SyncAnswers

structure CreateTableAnswers where
  directory : DirectoryAnswers
  tableFile : EmptyFileAnswers
  schemaFile : SchemaFileAnswers
  cleanup : RemoveAnswers

/-! ## System calls -/

/-- `fsync_directory`. -/
def fsyncDirectory (d : Nat) (a : SyncAnswers) : CatalogIo Bool := do
  if a.synced then
    step (·.syncDirectory d)
  pure (a.synced && a.closed)

/-- `fsync` and `close` of a file. -/
def fsyncFile (i : Nat) (a : SyncAnswers) : CatalogIo Bool := do
  if a.synced then
    step (·.syncFile i)
  pure (a.synced && a.closed)

/-- `create_directory_durable`: `create_directories` is false where the directory exists. -/
def createDirectoryDurable (d : Nat) (name : String) (a : DirectoryAnswers) : CatalogIo Bool := do
  let fs ← look
  if ((fs.current d).lookup name).isSome || !a.created then pure false
  else do
    step (·.makeDirectory d name)
    fsyncDirectory d a.parent

/-- `create_empty_file_durable`. -/
def createEmptyFileDurable (d : Nat) (name : String) (a : EmptyFileAnswers) : CatalogIo Bool := do
  let fs ← look
  if ((fs.current d).lookup name).isSome || !a.opened then pure false
  else do
    step (·.createFile d name)
    if ← fsyncFile fs.next a.file then fsyncDirectory d a.parent
    else if a.removed then do
      step (·.remove d name)
      pure false
    else Prog.stop .thrown

/-- `write_all`. -/
def writeAll (i : Nat) : List Char → List Char → List Nat → CatalogIo Bool
  | _, [], _ => pure true
  | _, _ :: _, [] => pure false
  | done, c :: rest, n :: answers =>
    if n = 0 then pure false
    else do
      step (·.write i (done ++ (c :: rest).take n))
      writeAll i (done ++ (c :: rest).take n) ((c :: rest).drop n) answers

/-- `open` with `O_CREAT | O_TRUNC`, and the file that it opens. -/
def openTruncated (d : Nat) (name : String) : CatalogIo (Option Nat) := do
  let fs ← look
  match (fs.current d).lookup name with
  | none => do
    step (·.createFile d name)
    pure (some fs.next)
  | some (.file i) => do
    step (·.write i [])
    pure (some i)
  | some (.directory _) => pure none

/-- `std::filesystem::remove` of the temporary file after a failure. -/
def removeTemp (d : Nat) (removed : Bool) : CatalogIo Bool := do
  if removed then do
    step (·.remove d tempFile)
    pure false
  else Prog.stop .thrown

/-- The sync of the temporary file, where its text was written. -/
def fsyncWritten (ok : Bool) (i : Nat) (a : SyncAnswers) : CatalogIo Bool :=
  if ok then fsyncFile i a else pure false

/-- `write_schema_file`. -/
def writeSchemaFile (d : Nat) (schema : Schema) (a : SchemaFileAnswers) : CatalogIo Bool := do
  if !a.opened then pure false
  else do
    match ← openTruncated d tempFile with
    | none => pure false
    | some i => do
      let ok ← writeAll i [] (serializeSchema schema.toSchemaParts) a.written
      if !(← fsyncWritten ok i a.file) then removeTemp d a.removed
      else if !a.renamed then removeTemp d a.removed
      else do
        step (·.rename d tempFile schemaFile)
        fsyncDirectory d a.parent

/-- The entry at a path below directory `d` is removed: a file, or a directory that is empty. -/
def removePath (fs : CatalogFiles) : Nat → List String → CatalogFiles
  | _, [] => fs
  | d, [name] =>
    match (fs.current d).lookup name with
    | some (.directory e) => if (fs.current e).entries = [] then fs.remove d name else fs
    | some (.file _) => fs.remove d name
    | none => fs
  | d, name :: other :: path =>
    match (fs.current d).lookup name with
    | some (.directory e) => removePath fs e (other :: path)
    | _ => fs

def removePaths (d : Nat) (name : String) : List (List String) → CatalogIo Unit
  | [] => pure ()
  | path :: paths => do
    step (removePath · d (name :: path))
    removePaths d name paths

/-- `remove_all`, which fails where it leaves something. -/
def removeAll (d : Nat) (name : String) (a : RemoveAnswers) : CatalogIo Bool := do
  removePaths d name a.removals
  let fs ← look
  pure (((fs.current d).lookup name).isNone)

/-! ## Lookups -/

/-- `database_path`, where it is a directory. -/
def databaseDirectory (s : Nat → Version String) (database : String) : Option Nat :=
  Files.directoryIn s 0 database

def tableDirectory (s : Nat → Version String) (database table : String) : Option Nat :=
  (databaseDirectory s database).bind fun d => Files.directoryIn s d table

/-- The text of the schema file, where `table_exists` holds. -/
def tableText (s : Nat → Version String) (content : Nat → List Char) (database table : String) :
    Option (List Char) :=
  (tableDirectory s database table).bind fun t =>
    (Files.fileIn s t tableFile).bind fun _ => (Files.fileIn s t schemaFile).map content

def databaseExists (fs : CatalogFiles) (database : String) : Bool :=
  (databaseDirectory fs.current database).isSome

def tableExists (fs : CatalogFiles) (database table : String) : Bool :=
  (tableText fs.current fs.content database table).isSome

/-- `load_schema`. -/
def loadSchema (fs : CatalogFiles) (database table : String) : Except ReadFailure Schema :=
  match tableText fs.current fs.content database table with
  | none => .error .nullopt
  | some text => readSchemaFile text

/-! ## The operations -/

def createDatabase (database : String) (a : DirectoryAnswers) : CatalogIo Bool :=
  if Column.isValidName database then createDirectoryDurable 0 database a else pure false

def dropDatabase (database : String) (a : RemoveAnswers) : CatalogIo Bool := do
  let fs ← look
  if !Column.isValidName database || !databaseExists fs database then pure false
  else if ← removeAll 0 database a then fsyncDirectory 0 a.parent
  else pure false

/-- What `create_table` does after a failure; the result of the sync is not looked at. -/
def cleanupTableDir (d : Nat) (table : String) (a : RemoveAnswers) : CatalogIo Bool := do
  if ← removeAll d table a then do
    let _ ← fsyncDirectory d a.parent
    pure false
  else Prog.stop .thrown

/-- The files of a new table in its directory. -/
def createTableFiles (d t : Nat) (schema : Schema) (a : CreateTableAnswers) : CatalogIo Bool := do
  if !(← createEmptyFileDurable t tableFile a.tableFile) then cleanupTableDir d schema.tableName a.cleanup
  else if !(← writeSchemaFile t schema a.schemaFile) then cleanupTableDir d schema.tableName a.cleanup
  else pure true

/-- A schema is valid by its type. -/
def createTable (database : String) (schema : Schema) (a : CreateTableAnswers) : CatalogIo Bool := do
  let fs ← look
  match databaseDirectory fs.current database with
  | none => pure false
  | some d =>
    if !Column.isValidName schema.tableName || ((fs.current d).lookup schema.tableName).isSome then
      pure false
    else if !(← createDirectoryDurable d schema.tableName a.directory) then pure false
    else createTableFiles d fs.next schema a

def dropTable (database table : String) (a : RemoveAnswers) : CatalogIo Bool := do
  let fs ← look
  match databaseDirectory fs.current database with
  | none => pure false
  | some d =>
    if !tableExists fs database table then pure false
    else if ← removeAll d table a then fsyncDirectory d a.parent
    else pure false

def replaceTableSchema (database : String) (schema : Schema) (a : SchemaFileAnswers) :
    CatalogIo Bool := do
  let fs ← look
  match tableDirectory fs.current database schema.tableName with
  | none => pure false
  | some t =>
    if !tableExists fs database schema.tableName then pure false
    else writeSchemaFile t schema a

/-! ## Runs -/

/-- A call of the catalog, with what the system answers to it. -/
inductive Operation where
  | createDatabase (database : String) (a : DirectoryAnswers)
  | dropDatabase (database : String) (a : RemoveAnswers)
  | createTable (database : String) (schema : Schema) (a : CreateTableAnswers)
  | dropTable (database table : String) (a : RemoveAnswers)
  | replaceTableSchema (database : String) (schema : Schema) (a : SchemaFileAnswers)

def Operation.program : Operation → CatalogIo Bool
  | .createDatabase database a => Catalog.createDatabase database a
  | .dropDatabase database a => Catalog.dropDatabase database a
  | .createTable database schema a => Catalog.createTable database schema a
  | .dropTable database table a => Catalog.dropTable database table a
  | .replaceTableSchema database schema a => Catalog.replaceTableSchema database schema a

inductive Event where
  /-- A call that runs to its end. -/
  | call (op : Operation)
  /-- The program is killed some steps before the end of the call. -/
  | killed (op : Operation) (missing : Nat)
  /-- The machine loses power. -/
  | powerLoss (choice : Nat → Nat) (torn : Nat → List Char)

/-- The states that a call passes through, the last one first. -/
def Operation.passed (op : Operation) (fs : CatalogFiles) : List CatalogFiles :=
  (op.program ⟨fs, []⟩).2.passed

/-- The call returns true. -/
def Operation.acknowledged (op : Operation) (fs : CatalogFiles) : Bool :=
  match (op.program ⟨fs, []⟩).1 with
  | .ok result => result
  | .error _ => false

def Event.next (fs : CatalogFiles) : Event → CatalogFiles
  | .call op => (op.passed fs).headD fs
  | .killed op missing => ((op.passed fs).drop missing).headD fs
  | .powerLoss choice torn => fs.powerLoss choice torn

end Catalog

end ScratchDb
