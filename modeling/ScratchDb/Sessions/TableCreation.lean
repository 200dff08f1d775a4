import ScratchDb.Recovery.Restartable
import ScratchDb.Sessions.TransactionIds

/-!
# Creating a table

Model of `Database::create_table` and `Catalog::create_table` over the files
and the log. The `create_table` record is logged before the catalog looks
whether the name is taken; a statement that then fails is aborted like any
other, by undoing its records.
-/

namespace ScratchDb

open WalManager

/-- A schema to be created, as far as the files go. -/
structure NewTable where
  name : Bytes
  /-- a table name has only letters, digits and underscores -/
  noSeparator : separator ∉ name
  /-- `schema.is_valid()` -/
  isValid : Bool
  /-- `serialize_schema(schema)` -/
  schemaText : Bytes

/-- How far the catalog gets in making the files of a table. -/
inductive TableCreation where
  | noDirectory
  /-- the directory is made but not synced -/
  | unsynced
  | noTableFile
  | noSchemaFile
  | made
deriving DecidableEq

/-- What the lock manager, the log and the file system answer to a `create_table`. -/
structure CreateAnswers where
  granted : Bool
  begins : Bool
  logs : Bool
  files : TableCreation
  commits : Bool

/-- `std::filesystem::exists`. -/
def FileSystem.exists (fs : FileSystem) (p : Path) : Bool :=
  fs.isDirectory p || (fs.text p).isSome || (fs.pages p).isSome

/-- What the catalog does to the files of directory `d`. A directory that could not be synced stays,
later failures remove it. -/
def TableCreation.effects (d : Path) (schemaText : Bytes) : TableCreation → List Effect
  | .noDirectory => []
  | .unsynced => [.createDirectories d]
  | .noTableFile => [.createDirectories d, .removeAll d]
  | .noSchemaFile => [.createDirectories d, .openCreate (d ++ [tableFileName]), .removeAll d]
  | .made =>
    [.createDirectories d, .openCreate (d ++ [tableFileName]),
      .replaceText (d ++ [schemaFileName]) schemaText]

namespace LoggedDatabase

section Create

variable (root : Bytes) (new : NewTable) (answers : CreateAnswers)

/-- `table_directory_path`, with the text of the database's directory. -/
def tableDirectory : Bytes := joinPath root new.name

/-- `Catalog::create_table`. -/
def catalogCreateTable : DatabaseIo Bool := do
  let s ← Prog.get
  let d := pathOf (tableDirectory root new)
  if !s.disk.fs.isDirectory s.directory || !new.isValid || s.disk.fs.exists d then pure false
  else
    Prog.modify fun s =>
      { s with disk :=
        { s.disk with fs := Effect.applyFsAll s.disk.fs (answers.files.effects d new.schemaText) } }
    pure (decide (answers.files = .made))

/-- `wal->begin_transaction` has to be called, and returns 0. -/
def createBeginRefused (called : Bool) (transactionId : Nat) : DatabaseIo Bool :=
  if !called then pure false
  else if !answers.begins then pure true
  else beginRefused called transactionId

/-- `wal->log_create_table` has to be called, and returns 0. -/
def createLogRefused (logged : Bool) (transactionId : Nat) : DatabaseIo Bool :=
  if !logged then pure false
  else if !answers.logs then pure true
  else do
    let lsn ← withManager
      (logCreateTable transactionId (tableDirectory root new) new.schemaText)
    pure (lsn = 0)

/-- `finish_statement`, where the log may refuse the commit record. -/
def createFinish (logged : Bool) (transactionId : Nat) : DatabaseIo Bool := do
  if ← inTransaction then pure true
  else if logged && !answers.commits then pure false
  else commitStatement transactionId

/-- The rest of a statement that has failed. -/
def refuseTable (transactionId : Nat) : DatabaseIo Bool := do
  let _ ← abortStatement transactionId
  pure false

/-- `create_table` once it has its id. -/
def logAndCreateTable (logged : Bool) (transactionId : Nat) : DatabaseIo Bool := do
  let within ← inTransaction
  if ← createBeginRefused answers (!within && logged) transactionId then pure false
  else if ← createLogRefused root new answers logged transactionId then refuseTable transactionId
  else if !(← catalogCreateTable root new answers) then refuseTable transactionId
  else createFinish answers logged transactionId

def databaseCreateTable : DatabaseIo Bool := do
  if !(← acquireTransactionLock answers.granted) then pure false
  else
    let logged ← walManager
    let transactionId ← currentTransactionId
    logAndCreateTable root new answers logged transactionId

end Create

/-- The files as seen by a reader of tables. -/
def view (s : LoggedDatabase) : Loc → Val Page := s.disk.fs.view contentView

/-- Opening the log of these files again and recovering it. -/
def recovered (s : LoggedDatabase) : Except Stop Bool × World := recover (reopen s.disk)

/-- `ROLLBACK`, before the indexes are rebuilt from the rows. -/
def rolledBackState (s : LoggedDatabase) : Except Stop Bool × LoggedDatabase :=
  rollbackStatement s.activeTransactionId s

end LoggedDatabase

end ScratchDb
