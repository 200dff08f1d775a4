import Mathlib.Data.List.Sort
import ScratchDb.Storage.FileSystem

/-!
# The WAL manager

`append_record` and the calls built on it, `recover` and
`rollback_transaction` of `wal_manager.cpp`. The log file is taken as the list
of its records; `readAllRecords_walBytes` is what `read_all_records` makes of
such a file.
-/

namespace ScratchDb

namespace WalManager

/-! ## Appending -/

/-- `append_record`; the number it returns is never zero. -/
def appendRecord (type : WalRecordType) (transactionId : Nat) (tableFile : Bytes) (pageId : Nat)
    (beforeImage afterImage : Bytes) (activeTransactions : List Nat) : Io Nat := do
  let w ← Prog.get
  let lsn := w.manager.lastLsn + 1
  let record : WalRecord :=
    ⟨type, lsn, transactionId, pageId, tableFile, beforeImage, afterImage, activeTransactions⟩
  if !(← perform (.append record)) then pure 0
  else do
    Prog.modify fun w => { w with manager := { w.manager with lastLsn := lsn } }
    pure lsn

def beginTransaction (transactionId : Nat) : Io Nat :=
  appendRecord .beginTransaction transactionId [] noPageId [] [] []

def logPageUpdate (transactionId : Nat) (tableFile : Bytes) (pageId : Nat)
    (beforePage afterPage : Page) : Io Nat :=
  appendRecord .pageUpdate transactionId tableFile pageId beforePage.image afterPage.image []

def logPageUpdateRaw (transactionId : Nat) (filePath : Bytes) (pageId : Nat)
    (beforeImage afterImage : Bytes) : Io Nat :=
  if beforeImage.length ≠ pageSize ∨ afterImage.length ≠ pageSize then pure 0
  else appendRecord .pageUpdate transactionId filePath pageId beforeImage afterImage []

def commitTransaction (transactionId : Nat) : Io Nat :=
  appendRecord .commitTransaction transactionId [] noPageId [] [] []

def abortTransaction (transactionId : Nat) : Io Nat :=
  appendRecord .abortTransaction transactionId [] noPageId [] [] []

def logCreateTable (transactionId : Nat) (tableDir schemaText : Bytes) : Io Nat :=
  appendRecord .createTable transactionId tableDir noPageId [] schemaText []

def logDropTable (transactionId : Nat) (tableDir : Bytes) : Io Nat :=
  appendRecord .dropTable transactionId tableDir noPageId [] [] []

def logSchemaUpdate (transactionId : Nat) (tableDir beforeSchemaText afterSchemaText : Bytes) :
    Io Nat :=
  appendRecord .schemaUpdate transactionId tableDir noPageId beforeSchemaText afterSchemaText []

def flush : Io Bool := do
  Prog.modify fun w => { w with manager := { w.manager with durableLsn := w.manager.lastLsn } }
  pure true

def flushThrough (lsn : Nat) : Io Bool := do
  let w ← Prog.get
  if lsn ≤ w.manager.durableLsn then pure true else flush

/-- `read_all_records` on the session's log. -/
def readAllRecords : Io (List WalRecord) := do
  let w ← Prog.get
  pure w.disk.wal

/-- The constructor: both counters start at the largest LSN of the file. -/
def openLog : Io Unit :=
  Prog.modify fun w =>
    let lastLsn := WalFile.maxLsn 0 w.disk.wal
    { w with manager := ⟨lastLsn, lastLsn⟩ }

/-! ## Redo and undo of one record -/

def writePageImage (r : WalRecord) (image : Bytes) (pageLsn : Nat) : Io Bool := do
  if r.pageId = noPageId ∨ r.tableFile = [] ∨ image.length ≠ pageSize then pure false
  else
    let file := pathOf r.tableFile
    let page := Page.ofImage image
    let output := if file.filename = tableFileName then page.setPageLsn pageLsn else page
    if !(← perform (.openCreate file)) then pure false
    else perform (.writePage file r.pageId output)

def redoCreateTable (r : WalRecord) : Io Bool := do
  if r.tableFile = [] then pure false
  else
    let tableDir := r.tableFile
    if !(← perform (.createDirectories (pathOf tableDir))) then pure false
    else if !(← perform (.openCreate (pathOf (joinPath tableDir tableFileName)))) then pure false
    else if !(← perform (.truncateText (pathOf (joinPath tableDir schemaFileName)))) then pure false
    else perform (.writeText (pathOf (joinPath tableDir schemaFileName)) r.afterImage)

def redoDropTable (r : WalRecord) : Io Bool :=
  if r.tableFile = [] then pure false else perform (.removeAll (pathOf r.tableFile))

def writeSchemaText (tableDir schemaImage : Bytes) : Io Bool := do
  if tableDir = [] ∨ schemaImage = [] then pure false
  else if !(← perform (.createDirectories (pathOf tableDir))) then pure false
  else if !(← perform (.truncateText (pathOf (joinPath tableDir schemaFileName)))) then pure false
  else perform (.writeText (pathOf (joinPath tableDir schemaFileName)) schemaImage)

/-- The body of the redo loop. -/
def redoRecord (r : WalRecord) : Io Bool :=
  if r.type = .pageUpdate ∧ r.afterImage ≠ [] then writePageImage r r.afterImage r.lsn
  else if r.type = .createTable then redoCreateTable r
  else if r.type = .dropTable then redoDropTable r
  else if r.type = .schemaUpdate then writeSchemaText r.tableFile r.afterImage
  else pure true

/-- The body of the two undo loops: log a compensation record under the same
transaction, then take the change back. A drop_table record has no branch. -/
def undoRecord (r : WalRecord) : Io Bool := do
  if r.type = .pageUpdate ∧ r.beforeImage ≠ [] then
    let compensationLsn ← logPageUpdate r.transactionId r.tableFile r.pageId
      (Page.ofImage r.afterImage) (Page.ofImage r.beforeImage)
    if compensationLsn = 0 then pure false
    else writePageImage r r.beforeImage compensationLsn
  else if r.type = .createTable then
    if (← logDropTable r.transactionId r.tableFile) = 0 then pure false else redoDropTable r
  else if r.type = .schemaUpdate then
    let compensationLsn ← logSchemaUpdate r.transactionId r.tableFile r.afterImage r.beforeImage
    if compensationLsn = 0 then pure false else writeSchemaText r.tableFile r.beforeImage
  else pure true

/-! ## Recovery -/

/-- `std::set::insert`, on the increasing list of a set. -/
def setInsert (id : Nat) (ids : List Nat) : List Nat :=
  if id ∈ ids then ids else ids.orderedInsert (· ≤ ·) id

/-- The transactions with a record of type `type`. -/
def transactionsWith (type : WalRecordType) (records : List WalRecord) : List Nat :=
  records.foldl (fun ids r => if r.type = type then setInsert r.transactionId ids else ids) []

/-- Started and neither committed nor aborted. -/
def losersOf (records : List WalRecord) : List Nat :=
  (transactionsWith .beginTransaction records).filter fun id =>
    !(transactionsWith .commitTransaction records).contains id &&
      !(transactionsWith .abortTransaction records).contains id

/-- The redo loop passes over a record of a transaction the log knows nothing
about. -/
def redoSkips (records : List WalRecord) (r : WalRecord) : Bool :=
  r.transactionId ≠ 0 && !(transactionsWith .commitTransaction records).contains r.transactionId &&
    !(transactionsWith .abortTransaction records).contains r.transactionId &&
    !(losersOf records).contains r.transactionId

def redoLoop (skips : WalRecord → Bool) : List WalRecord → Io Bool
  | [] => pure true
  | r :: rs => do
    if skips r then redoLoop skips rs
    else if !(← redoRecord r) then pure false
    else redoLoop skips rs

/-- The undo loop over the records from the last one back. -/
def undoLoop (chosen : Nat → Bool) : List WalRecord → Io Bool
  | [] => pure true
  | r :: rs => do
    if !chosen r.transactionId then undoLoop chosen rs
    else if !(← undoRecord r) then pure false
    else undoLoop chosen rs

def abortLoop : List Nat → Io Bool
  | [] => pure true
  | id :: ids => do
    if (← abortTransaction id) = 0 then pure false else abortLoop ids

/-- `last_lsn_` moves up to the largest LSN of `records`. -/
def adoptLsns (records : List WalRecord) : Io Unit :=
  Prog.modify fun w =>
    { w with manager := { w.manager with lastLsn := WalFile.maxLsn w.manager.lastLsn records } }

def recover : Io Bool := do
  let records ← readAllRecords
  adoptLsns records
  let losers := losersOf records
  if !(← redoLoop (redoSkips records) records) then pure false
  else if !(← undoLoop losers.contains records.reverse) then pure false
  else if !(← abortLoop losers) then pure false
  else flush

def rollbackTransaction (transactionId : Nat) : Io Bool := do
  if transactionId = 0 then pure false
  else
    let records ← readAllRecords
    if !(← undoLoop (· == transactionId) records.reverse) then pure false
    else if (← abortTransaction transactionId) = 0 then pure false
    else flush

end WalManager

end ScratchDb
