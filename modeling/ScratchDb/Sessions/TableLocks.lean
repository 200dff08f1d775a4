import ScratchDb.Concurrency.MutualExclusion

/-!
# The table locks of sessions

Model of the lock functions of `Database` and of where its operations call
them: `acquire_transaction_lock`, `acquire_statement_lock`, the end of a
statement, and the release of all locks by `commit_transaction` and
`rollback_transaction`. A session is one `Database` object. Its operations
nest, because the callback of `scan_rows` may call others; another session can
act between any two actions here.
-/

namespace ScratchDb

/-- The variables of type `TableLock` of a session. -/
inductive LockSlot (Session : Type) where
  /-- `active_locks_[key]` -/
  | active (d : Session) (key : Bytes)
  /-- the local `table_lock` of `acquire_transaction_lock` -/
  | attempt (d : Session)
  /-- the local `table_lock` of a statement, by how many statements are around it -/
  | statement (d : Session) (depth : Nat)
deriving DecidableEq

/-- What a statement asks of its table. -/
structure TableAccess where
  key : Bytes
  mode : TableLockMode
deriving DecidableEq

/-- Where a session stands in its lock functions, and in which thread. -/
inductive LockStage (Thread : Type) where
  /-- in none of them -/
  | outside
  /-- before a `try_lock_table_…_for` -/
  | wantsTransactionLock (t : Thread) (a : TableAccess)
  /-- in a `try_lock_table_…_for` -/
  | triesTransactionLock (t : Thread) (a : TableAccess)
  /-- before `acquire_statement_lock` -/
  | wantsStatementLock (t : Thread) (a : TableAccess)
  /-- in its `lock_table_…` -/
  | takesStatementLock (t : Thread) (a : TableAccess)
  /-- in `active_locks_.clear()` -/
  | releases (t : Thread)

/-- The fields of a `Database` that its lock functions use. -/
structure SessionLocks (Thread : Type) where
  inTransaction : Bool := false
  transactionAborted : Bool := false
  activeTableLocks : Bytes → Option TableLockMode := fun _ => none
  /-- the keys of `active_locks_` -/
  activeLocks : Finset Bytes := ∅
  /-- the statements that run, the innermost first -/
  statements : List TableAccess := []
  stage : LockStage Thread := .outside
  /-- what `acquire_transaction_lock` has granted the open transaction (not in the source) -/
  granted : List TableAccess := []

/-- The sessions of a process. -/
structure Sessions (Session Thread : Type) where
  locks : LockState Thread (LockSlot Session)
  session : Session → SessionLocks Thread

namespace Sessions

variable {Session Thread : Type} [DecidableEq Session] [DecidableEq Thread]

def empty : Sessions Session Thread where
  locks := .empty
  session _ := {}

def set (s : Sessions Session Thread) (d : Session) (db : SessionLocks Thread) :
    Sessions Session Thread :=
  { s with session := Function.update s.session d db }

/-- An action of the lock manager. -/
def lock (s : Sessions Session Thread) (a : LockState.Action Thread (LockSlot Session)) :
    Option (Sessions Session Thread) :=
  (s.locks.next a).map fun locks => { s with locks }

inductive Action (Session Thread : Type) where
  /-- `begin_transaction` returns true -/
  | begin (d : Session)
  /-- a statement calls `acquire_transaction_lock` -/
  | call (d : Session) (t : Thread) (a : TableAccess)
  /-- it asks the lock manager -/
  | attempt (d : Session)
  /-- the lock manager gives it the lock -/
  | obtain (d : Session)
  /-- the lock manager does not in time -/
  | timeout (d : Session)
  /-- `acquire_statement_lock` -/
  | statementLock (d : Session)
  /-- the lock manager gives it the lock -/
  | enter (d : Session)
  /-- the innermost statement writes its table -/
  | write (d : Session) (key : Bytes)
  /-- it fails, in `abort_statement` -/
  | abort (d : Session)
  /-- it returns -/
  | return (d : Session) (t : Thread)
  /-- `commit_statement` has succeeded in `commit_transaction` -/
  | commit (d : Session) (t : Thread)
  /-- `rollback_statement` has succeeded in `rollback_transaction` -/
  | rollback (d : Session) (t : Thread)
  /-- a lock is destroyed by `active_locks_.clear()` -/
  | release (d : Session) (key : Bytes)
  /-- `commit_transaction` or `rollback_transaction` returns true -/
  | finish (d : Session)

/-- A statement runs: its locks are taken. -/
def runStatement (s : Sessions Session Thread) (d : Session) (a : TableAccess) :
    Sessions Session Thread :=
  let db := s.session d
  s.set d { db with statements := a :: db.statements, stage := .outside }

/-- `acquire_transaction_lock` up to where it has to ask the lock manager. -/
def acquireTransactionLock (s : Sessions Session Thread) (d : Session) (t : Thread)
    (a : TableAccess) : Option (Sessions Session Thread) :=
  let db := s.session d
  if ¬ db.inTransaction then some (s.set d { db with stage := .wantsStatementLock t a })
  else if db.transactionAborted then some s
  else
    match db.activeTableLocks a.key with
    | some held =>
      if held = .exclusive ∨ a.mode = .shared then
        some (s.set d
          { db with stage := .wantsStatementLock t a, granted := a :: db.granted })
      else
        (s.lock (.drop t (.active d a.key))).map fun s => s.set d
          { db with
            activeLocks := db.activeLocks.erase a.key
            activeTableLocks := Function.update db.activeTableLocks a.key none
            stage := .wantsTransactionLock t a }
    | none => some (s.set d { db with stage := .wantsTransactionLock t a })

/-- The locks are released once the transaction is over in the log. -/
def endTransaction (s : Sessions Session Thread) (d : Session) (t : Thread) :
    Option (Sessions Session Thread) :=
  let db := s.session d
  if db.inTransaction ∧ db.statements = [] then
    some (s.set d { db with stage := .releases t, granted := [] })
  else none

def next (s : Sessions Session Thread) :
    Action Session Thread → Option (Sessions Session Thread)
  | .begin d =>
    let db := s.session d
    match db.stage with
    | .outside =>
      if ¬ db.inTransaction ∧ db.statements = [] then
        some (s.set d { db with inTransaction := true, transactionAborted := false })
      else none
    | _ => none
  | .call d t a =>
    match (s.session d).stage with
    | .outside => s.acquireTransactionLock d t a
    | _ => none
  | .attempt d =>
    match (s.session d).stage with
    | .wantsTransactionLock t a =>
      (s.lock (.request t (.attempt d) a.key a.mode true)).map fun s =>
        s.set d { s.session d with stage := .triesTransactionLock t a }
    | _ => none
  | .obtain d =>
    match (s.session d).stage with
    | .triesTransactionLock t a =>
      (s.lock (.enter t)).bind fun s =>
        (s.lock (.move t (.attempt d) (.active d a.key))).map fun s =>
          let db := s.session d
          s.set d
            { db with
              activeLocks := insert a.key db.activeLocks
              activeTableLocks := Function.update db.activeTableLocks a.key (some a.mode)
              stage := .wantsStatementLock t a
              granted := a :: db.granted }
    | _ => none
  | .timeout d =>
    match (s.session d).stage with
    | .triesTransactionLock t _ =>
      (s.lock (.timeout t)).bind fun s =>
        (s.lock (.drop t (.attempt d))).map fun s =>
          s.set d { s.session d with stage := .outside }
    | _ => none
  | .statementLock d =>
    let db := s.session d
    match db.stage with
    | .wantsStatementLock t a =>
      if db.activeTableLocks a.key ≠ none then some (s.runStatement d a)
      else
        (s.lock (.request t (.statement d db.statements.length) a.key a.mode false)).map fun s =>
          s.set d { db with stage := .takesStatementLock t a }
    | _ => none
  | .enter d =>
    match (s.session d).stage with
    | .takesStatementLock t a => (s.lock (.enter t)).map fun s => s.runStatement d a
    | _ => none
  | .write d key =>
    match (s.session d).stage, (s.session d).statements with
    | .outside, a :: _ => if a.key = key ∧ a.mode = .exclusive then some s else none
    | _, _ => none
  | .abort d =>
    let db := s.session d
    match db.stage, db.statements with
    | .outside, _ :: _ =>
      if db.inTransaction then some (s.set d { db with transactionAborted := true }) else some s
    | _, _ => none
  | .return d t =>
    let db := s.session d
    match db.stage, db.statements with
    | .outside, _ :: outer =>
      (s.lock (.drop t (.statement d outer.length))).map fun s =>
        s.set d { db with statements := outer }
    | _, _ => none
  | .commit d t =>
    match (s.session d).stage with
    | .outside => if (s.session d).transactionAborted then none else s.endTransaction d t
    | _ => none
  | .rollback d t =>
    match (s.session d).stage with
    | .outside => s.endTransaction d t
    | _ => none
  | .release d key =>
    let db := s.session d
    match db.stage with
    | .releases t =>
      if key ∈ db.activeLocks then
        (s.lock (.drop t (.active d key))).map fun s =>
          s.set d { db with activeLocks := db.activeLocks.erase key }
      else none
    | _ => none
  | .finish d =>
    let db := s.session d
    match db.stage with
    | .releases _ =>
      if db.activeLocks = ∅ then
        some (s.set d
          { db with
            inTransaction := false
            transactionAborted := false
            activeTableLocks := fun _ => none
            stage := .outside })
      else none
    | _ => none

end Sessions

/-- Sessions that work at the same time. -/
def sessionMachine (Session Thread : Type) [DecidableEq Session] [DecidableEq Thread] :
    Machine (Sessions Session Thread) (Sessions.Action Session Thread) where
  init := .empty
  next := Sessions.next

end ScratchDb
