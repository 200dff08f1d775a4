import Mathlib.Logic.Function.Basic
import ScratchDb.Lib.Machine
import ScratchDb.Sessions.Appends

/-!
# Sessions that append to one log

Model of several `Database` objects over one directory, each with a
`WalManager` of its own on the same file. A session constructs its manager,
recovers, and then takes ids and appends; its counters move with its own
actions only. Between any two records of a session, those that a recovery or a
rollback appends included, the other sessions can act.
-/

namespace ScratchDb

open WalManager

/-- What is left of a `recover` or of a `rollback_transaction`, record by record. -/
inductive LogTask where
  | redo (r : WalRecord)
  | undo (r : WalRecord)
  | abort (transactionId : Nat)
deriving DecidableEq

def LogTask.run : LogTask → Io Bool
  | redo r => redoRecord r
  | undo r => undoRecord r
  | abort transactionId => do
    let lsn ← abortTransaction transactionId
    pure (lsn ≠ 0)

/-- `recover` once it has read the log. -/
def recoveryTasks (log : List WalRecord) : List LogTask :=
  (redone log).map .redo ++ (undone log).map .undo ++ (losersOf log).map .abort

/-- `rollback_transaction` once it has read the log. -/
def rollbackTasks (transactionId : Nat) (log : List WalRecord) : List LogTask :=
  (rolledBack transactionId log).map .undo ++ [.abort transactionId]

inductive LogStage where
  /-- `wal_manager_` is null -/
  | closed
  /-- the constructor has run, `recover` has not read the log -/
  | opened
  | recovering (rest : List LogTask)
  /-- `wal_manager` has returned -/
  | ready
  | rollingBack (rest : List LogTask)
deriving DecidableEq

/-- The fields of a `Database` and of its `WalManager` that number and order what is logged. -/
structure LogSession where
  stage : LogStage := .closed
  lastLsn : Nat := 0
  nextTransactionId : Nat := 1
  /-- the id of the transaction or the statement that runs -/
  transaction : Option Nat := none
  /-- its begin record is in the log -/
  begun : Bool := false

structure SharedLog (Session : Type) where
  disk : Disk
  session : Session → LogSession
  /-- the records that sessions have appended, and who (not in the source) -/
  appended : List (Session × WalRecord)
  /-- the ids that sessions have taken, and who (not in the source) -/
  started : List (Session × Nat)
  /-- another session has taken an id or appended since this one last read the log or did
  either itself, or then held an id that it had not logged (not in the source) -/
  stale : Session → Bool

namespace SharedLog

variable {Session : Type} [DecidableEq Session]

inductive Action (Session : Type) where
  /-- the constructor of the manager -/
  | construct (d : Session)
  /-- `recover` reads the log -/
  | readLog (d : Session)
  /-- the next task of the recovery or of the rollback -/
  | work (d : Session)
  /-- `recover` has returned: the id counter moves past the log -/
  | passLog (d : Session)
  /-- `next_transaction_id_++` -/
  | takeId (d : Session)
  | begin (d : Session)
  /-- the transaction logs a change -/
  | write (d : Session) (type : WalRecordType) (tableFile : Bytes) (pageId : Nat)
      (beforeImage afterImage : Bytes)
  | commit (d : Session)
  /-- `rollback_transaction` reads the log -/
  | rollback (d : Session)
  /-- `rollback_transaction` has returned true -/
  | finish (d : Session)
  /-- a statement ends without a commit and without a rollback -/
  | abandon (d : Session)

def set (s : SharedLog Session) (d : Session) (l : LogSession) : SharedLog Session :=
  { s with session := Function.update s.session d l }

@[simp] theorem set_self (s : SharedLog Session) (d : Session) (l : LogSession) :
    (s.set d l).session d = l := Function.update_self ..

theorem set_of_ne (s : SharedLog Session) {d e : Session} (h : e ≠ d) (l : LogSession) :
    (s.set d l).session e = s.session e := Function.update_of_ne h ..

/-- `d` has taken an id or appended. -/
def acted (s : SharedLog Session) (d : Session) : SharedLog Session :=
  { s with stale := fun e => s.stale e || e ≠ d }

/-- A session other than `d` holds an id it has not logged. -/
def OthersHold (s : SharedLog Session) (d : Session) : Prop :=
  ∃ p ∈ s.started, p.1 ≠ d ∧ (s.session p.1).transaction = some p.2 ∧
    (s.session p.1).begun = false

instance (s : SharedLog Session) (d : Session) : Decidable (s.OthersHold d) := by
  unfold OthersHold
  infer_instance

/-- `d` calls its manager. -/
def call (s : SharedLog Session) (d : Session) {α : Type} (m : Io α) :
    Except Stop α × SharedLog Session :=
  let db := s.session d
  let out := m ⟨s.disk, ⟨db.lastLsn, 0⟩, []⟩
  let new := out.2.disk.wal.drop s.disk.wal.length
  let t := { s with
    disk := out.2.disk
    appended := s.appended ++ new.map fun r => (d, r) }.set d
      { db with lastLsn := out.2.manager.lastLsn }
  (out.1, if new = [] then t else t.acted d)

/-- A task that returns false ends the recovery. -/
def recoveringAfter (rest : List LogTask) : Except Stop Bool → LogStage
  | .ok true => .recovering rest
  | _ => .recovering []

/-- A task that returns false ends the rollback and leaves the transaction as it is. -/
def rollingBackAfter (rest : List LogTask) : Except Stop Bool → LogStage
  | .ok true => .rollingBack rest
  | _ => .ready

/-- The state after an action that is enabled. -/
def next (s : SharedLog Session) : Action Session → Option (SharedLog Session)
  | .construct d =>
    let db := s.session d
    match db.stage with
    | .closed => some (s.set d { db with stage := .opened, lastLsn := WalFile.maxLsn 0 s.disk.wal })
    | _ => none
  | .readLog d =>
    let db := s.session d
    match db.stage with
    | .opened =>
      some { s.set d { db with
          stage := .recovering (recoveryTasks s.disk.wal)
          lastLsn := WalFile.maxLsn db.lastLsn s.disk.wal } with
        stale := Function.update s.stale d (s.OthersHold d) }
    | _ => none
  | .work d =>
    match (s.session d).stage with
    | .recovering (task :: rest) =>
      let out := s.call d task.run
      some (out.2.set d { out.2.session d with stage := recoveringAfter rest out.1 })
    | .rollingBack (task :: rest) =>
      let out := s.call d task.run
      some (out.2.set d { out.2.session d with stage := rollingBackAfter rest out.1 })
    | _ => none
  | .passLog d =>
    let db := s.session d
    match db.stage with
    | .recovering [] =>
      some (s.set d { db with
        stage := .ready
        nextTransactionId :=
          if db.nextTransactionId ≤ db.lastLsn then db.lastLsn + 1 else db.nextTransactionId })
    | _ => none
  | .takeId d =>
    let db := s.session d
    match db.stage, db.transaction with
    | .closed, none | .ready, none =>
      some ({ s with started := s.started ++ [(d, db.nextTransactionId)] }.set d { db with
        nextTransactionId := db.nextTransactionId + 1
        transaction := some db.nextTransactionId
        begun := false } |>.acted d)
    | _, _ => none
  | .begin d =>
    match (s.session d).stage, (s.session d).transaction, (s.session d).begun with
    | .ready, some id, false =>
      let t := (s.call d (beginTransaction id)).2
      some (t.set d { t.session d with begun := true })
    | _, _, _ => none
  | .write d type tableFile pageId beforeImage afterImage =>
    match (s.session d).stage, (s.session d).transaction, (s.session d).begun with
    | .ready, some id, true =>
      some (s.call d (appendRecord type id tableFile pageId beforeImage afterImage [])).2
    | _, _, _ => none
  | .commit d =>
    match (s.session d).stage, (s.session d).transaction, (s.session d).begun with
    | .ready, some id, true =>
      let t := (s.call d (commitTransaction id)).2
      some (t.set d { t.session d with transaction := none })
    | _, _, _ => none
  | .rollback d =>
    let db := s.session d
    match db.stage, db.transaction, db.begun with
    | .ready, some id, true =>
      some (s.set d { db with stage := .rollingBack (rollbackTasks id s.disk.wal) })
    | _, _, _ => none
  | .finish d =>
    let db := s.session d
    match db.stage with
    | .rollingBack [] => some (s.set d { db with stage := .ready, transaction := none })
    | _ => none
  | .abandon d =>
    let db := s.session d
    match db.stage, db.begun with
    | .ready, true => some (s.set d { db with transaction := none })
    | _, _ => none

end SharedLog

/-- Sessions over a log that no one has opened yet. -/
def sharedLogMachine (Session : Type) [DecidableEq Session] (disk : Disk) :
    Machine (SharedLog Session) (SharedLog.Action Session) where
  init := ⟨disk, fun _ => {}, [], [], fun _ => false⟩
  next := SharedLog.next

end ScratchDb
