import ScratchDb.Sessions.Appends

/-!
# The ids of transactions

Model of how a `Database` object numbers its transactions: `wal_manager`,
which opens the log and runs `recover` on its first call, the counter
`next_transaction_id_`, and the place where each operation asks for an id.
What a statement logs and writes in between is any list of steps, and what its
early checks find is part of the call.
-/

namespace ScratchDb

open WalManager

/-- The fields of a `Database` that number its transactions, and its disk. -/
structure LoggedDatabase where
  disk : Disk
  /-- `data_root_ / database_name_` -/
  directory : Path
  /-- `wal_manager_` -/
  manager : Option WalManager := none
  nextTransactionId : Nat := 1
  activeTransactionId : Nat := 0
  transactionAborted : Bool := false
  /-- what `next_transaction_id_++` has given out (not in the source) -/
  given : List Nat := []

abbrev DatabaseIo := Prog Stop LoggedDatabase

/-- What a statement does once it has its id: it logs a change under the id, or it changes files. -/
inductive StatementStep where
  | log (type : WalRecordType) (tableFile : Bytes) (pageId : Nat) (beforeImage afterImage : Bytes)
  | files (change : FileSystem → FileSystem)

inductive StatementEnd where
  | succeeds
  | fails
  /-- an exception leaves the body of the statement -/
  | throws

structure StatementBody where
  steps : List StatementStep
  ending : StatementEnd

namespace LoggedDatabase

/-! ## The log and the counter -/

/-- A call of the manager; the constructor makes one. -/
def withManager {α : Type} (m : Io α) : DatabaseIo α := fun s =>
  let out := m ⟨s.disk, s.manager.getD ⟨0, 0⟩, []⟩
  (out.1, { s with disk := out.2.disk, manager := some out.2.manager })

/-- `last_lsn()` of the manager. -/
def lastLsn (s : LoggedDatabase) : Nat := (s.manager.getD ⟨0, 0⟩).lastLsn

/-- The counter moves past the log. -/
def passLog (s : LoggedDatabase) : LoggedDatabase :=
  if s.nextTransactionId ≤ s.lastLsn then { s with nextTransactionId := s.lastLsn + 1 } else s

/-- `wal_manager`: whether it is not null. What `recover` returns is not looked at. -/
def walManager : DatabaseIo Bool := do
  let s ← Prog.get
  if ¬ s.disk.fs.isDirectory s.directory then pure false
  else if s.manager.isSome then pure true
  else
    withManager openLog
    let _ ← withManager recover
    Prog.modify passLog
    pure true

def inTransaction : DatabaseIo Bool := do
  let s ← Prog.get
  pure (s.activeTransactionId ≠ 0)

/-- `next_transaction_id_++`. -/
def takeId : DatabaseIo Nat := do
  let s ← Prog.get
  Prog.modify fun s =>
    { s with
      nextTransactionId := s.nextTransactionId + 1
      given := s.given ++ [s.nextTransactionId] }
  pure s.nextTransactionId

def currentTransactionId : DatabaseIo Nat := do
  let s ← Prog.get
  if s.activeTransactionId ≠ 0 then pure s.activeTransactionId else takeId

/-- `acquire_transaction_lock`, where the lock manager's answer is `granted`. -/
def acquireTransactionLock (granted : Bool) : DatabaseIo Bool := do
  let s ← Prog.get
  if s.activeTransactionId = 0 then pure true
  else if s.transactionAborted then pure false
  else pure granted

/-! ## The end of a statement -/

def commitStatement (transactionId : Nat) : DatabaseIo Bool := do
  let s ← Prog.get
  if s.activeTransactionId = transactionId ∧ s.transactionAborted then pure false
  else if !(← walManager) then pure true
  else
    let commitLsn ← withManager (WalManager.commitTransaction transactionId)
    if commitLsn = 0 then pure false else withManager (flushThrough commitLsn)

def rollbackStatement (transactionId : Nat) : DatabaseIo Bool := do
  if !(← walManager) then pure true
  else withManager (WalManager.rollbackTransaction transactionId)

def finishStatement (transactionId : Nat) : DatabaseIo Bool := do
  if ← inTransaction then pure true else commitStatement transactionId

def abortStatement (transactionId : Nat) : DatabaseIo Bool := do
  if ← inTransaction then
    Prog.modify fun s =>
      if s.activeTransactionId = transactionId then { s with transactionAborted := true } else s
    pure false
  else rollbackStatement transactionId

/-! ## Statements -/

def runStep (logged : Bool) (transactionId : Nat) : StatementStep → DatabaseIo Unit
  | .log type tableFile pageId beforeImage afterImage =>
    if logged then do
      let _ ← withManager
        (appendRecord type transactionId tableFile pageId beforeImage afterImage [])
      pure ()
    else pure ()
  | .files change =>
    Prog.modify fun s => { s with disk := { s.disk with fs := change s.disk.fs } }

def runSteps (logged : Bool) (transactionId : Nat) : List StatementStep → DatabaseIo Unit
  | [] => pure ()
  | step :: steps => do
    runStep logged transactionId step
    runSteps logged transactionId steps

/-- In what the operations differ around their bodies. -/
structure StatementShape where
  /-- `wal_manager()` is called before `current_transaction_id()` -/
  opensLogFirst : Bool := false
  /-- a failed `finish_statement` is followed by `abort_statement` -/
  abortsUnfinished : Bool := false
  /-- so is an exception of the body -/
  abortsOnThrow : Bool := false

/-- `wal->begin_transaction` has to be called, and returns 0. -/
def beginRefused (called : Bool) (transactionId : Nat) : DatabaseIo Bool :=
  if called then do
    let lsn ← withManager (WalManager.beginTransaction transactionId)
    pure (lsn = 0)
  else pure false

/-- A statement from its begin record on. -/
def logStatement (shape : StatementShape) (body : StatementBody) (logged : Bool)
    (transactionId : Nat) : DatabaseIo Bool := do
  let within ← inTransaction
  if ← beginRefused (!within && logged) transactionId then pure false
  else
    runSteps logged transactionId body.steps
    match body.ending with
    | .succeeds =>
      if ← finishStatement transactionId then pure true
      else if shape.abortsUnfinished then do
        let _ ← abortStatement transactionId
        pure false
      else pure false
    | .fails => do
      let _ ← abortStatement transactionId
      pure false
    | .throws =>
      if shape.abortsOnThrow then do
        let _ ← abortStatement transactionId
        pure false
      else pure false

/-- The common course of the operations that write. `proceeds` tells whether the checks before
the id is asked for let the statement through. -/
def statement (shape : StatementShape) (granted proceeds : Bool) (body : StatementBody) :
    DatabaseIo Bool := do
  if !(← acquireTransactionLock granted) then pure false
  else if !proceeds then pure false
  else if shape.opensLogFirst then do
    let logged ← walManager
    let transactionId ← currentTransactionId
    logStatement shape body logged transactionId
  else do
    let transactionId ← currentTransactionId
    let logged ← walManager
    logStatement shape body logged transactionId

/-- A memory table is written without an id. -/
def insertRow (granted madeRecord memoryTable : Bool) : StatementBody → DatabaseIo Bool :=
  statement { abortsUnfinished := true, abortsOnThrow := true } granted (madeRecord && !memoryTable)

def updateRow (granted madeRecord memoryTable : Bool) : StatementBody → DatabaseIo Bool :=
  statement { abortsOnThrow := true } granted (madeRecord && !memoryTable)

def deleteRow (granted tableExists memoryTable : Bool) : StatementBody → DatabaseIo Bool :=
  statement { abortsOnThrow := true } granted (tableExists && !memoryTable)

def createTable (granted : Bool) : StatementBody → DatabaseIo Bool :=
  statement { opensLogFirst := true } granted true

def dropTable (granted tableExists : Bool) : StatementBody → DatabaseIo Bool :=
  statement {} granted tableExists

/-- `validSchema`: the constructor of `Schema` does not throw. -/
def addConstraint (granted schemaLoads validSchema : Bool) : StatementBody → DatabaseIo Bool :=
  statement {} granted (schemaLoads && validSchema)

def dropConstraint (granted schemaLoads found validSchema : Bool) :
    StatementBody → DatabaseIo Bool :=
  statement {} granted (schemaLoads && found && validSchema)

def createIndex (granted schemaLoads columnExists isNew validSchema : Bool) :
    StatementBody → DatabaseIo Bool :=
  statement {} granted (schemaLoads && columnExists && isNew && validSchema)

def dropIndex (granted schemaLoads found validSchema : Bool) : StatementBody → DatabaseIo Bool :=
  statement {} granted (schemaLoads && found && validSchema)

/-- `read_row` and `scan_rows` only open the log. -/
def readRows (granted schemaLoads memoryTable : Bool) : DatabaseIo Bool := do
  if !(← acquireTransactionLock granted) then pure false
  else if schemaLoads && !memoryTable then walManager
  else pure false

/-! ## Transactions -/

def beginTransaction : DatabaseIo Bool := do
  let logged ← walManager
  if ← inTransaction then pure false
  else
    let transactionId ← takeId
    Prog.modify fun s =>
      { s with activeTransactionId := transactionId, transactionAborted := false }
    if ← beginRefused logged transactionId then
      Prog.modify fun s => { s with activeTransactionId := 0 }
      pure false
    else pure true

def endTransaction (s : LoggedDatabase) : LoggedDatabase :=
  { s with activeTransactionId := 0, transactionAborted := false }

def commitTransaction : DatabaseIo Bool := do
  let s ← Prog.get
  if s.activeTransactionId = 0 then pure false
  else if !(← commitStatement s.activeTransactionId) then pure false
  else
    Prog.modify endTransaction
    pure true

/-- `rebuild` is what `rebuild_indexes` does to the files. -/
def rollbackTransaction (rebuild : FileSystem → FileSystem) : DatabaseIo Bool := do
  let s ← Prog.get
  if s.activeTransactionId = 0 then pure false
  else if !(← rollbackStatement s.activeTransactionId) then pure false
  else
    Prog.modify fun s => endTransaction { s with disk := { s.disk with fs := rebuild s.disk.fs } }
    pure true

end LoggedDatabase

end ScratchDb
