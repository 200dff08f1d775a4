import ScratchDb.Query.Executor
import ScratchDb.Recovery.Transactions

/-!
# Switching databases

Model of `CREATE DATABASE`, `USE` and `DROP DATABASE` in
`src/query/query_executor.cpp`. The executor owns one `Database` object. When
the object is replaced its destructor releases the table locks of an open
transaction and forgets the transaction; nothing is written to the log.
-/

namespace ScratchDb

/-- A transaction that the executor's `Database` object has open. -/
structure OpenTransaction where
  transactionId : Nat
  transactionAborted : Bool
  /-- keys of `active_locks_` -/
  activeLocks : List String
deriving DecidableEq, Repr

/-- The end of a `Database` object with an open transaction (not in the source). -/
structure LockRelease where
  transaction : OpenTransaction
  /-- the log of its database when the locks are released -/
  log : List WalRecord

/-- A `QueryExecutor`, its data root, and what it has released. -/
structure SwitchingExecutor where
  /-- `database_exists` of each name -/
  databaseExists : String → Bool
  /-- the log of each database; of one that was dropped, as it was -/
  wal : String → List WalRecord
  currentDatabase : String := ""
  /-- `database_`, an object for `current_database_`, with its transaction -/
  database : Option (Option OpenTransaction) := none
  released : List LockRelease := []

abbrev SwitchIo := Prog QueryError SwitchingExecutor

/-- What the file system answers to `create_directories`, `remove_all` and `fsync_directory`. -/
structure DirectoryAnswers where
  created : Bool
  removed : Bool
  synced : Bool

namespace SwitchingExecutor

def openTransaction (s : SwitchingExecutor) : Option OpenTransaction := s.database.join

/-- The destructor of the object. -/
def destroyDatabase (s : SwitchingExecutor) : SwitchingExecutor :=
  match s.openTransaction with
  | none => { s with database := none }
  | some transaction =>
    { s with
      database := none
      released := s.released ++ [{ transaction, log := s.wal s.currentDatabase }] }

def selectDatabase (name : String) (s : SwitchingExecutor) : SwitchingExecutor :=
  { s.destroyDatabase with currentDatabase := name, database := some none }

def clearDatabase (s : SwitchingExecutor) : SwitchingExecutor :=
  { s.destroyDatabase with currentDatabase := "" }

/-! ## The catalog -/

/-- `Catalog::create_database`. A new directory has no log. -/
def catalogCreate (files : DirectoryAnswers) (name : String) : SwitchIo Bool :=
  if Column.isValidName name ∧ files.created then do
    Prog.modify fun s =>
      { s with
        databaseExists := Function.update s.databaseExists name true
        wal := Function.update s.wal name [] }
    pure files.synced
  else pure false

/-- `Catalog::drop_database`. -/
def catalogDrop (files : DirectoryAnswers) (name : String) : SwitchIo Bool := do
  let s ← Prog.get
  if Column.isValidName name ∧ s.databaseExists name ∧ files.removed then do
    Prog.modify fun s => { s with databaseExists := Function.update s.databaseExists name false }
    pure files.synced
  else pure false

/-! ## The statements -/

section Statements

variable (command : String) (files : DirectoryAnswers)

/-- The new object is in place before the name is looked at. -/
def createDatabase (name : String) : SwitchIo QueryResult := do
  Prog.modify (selectDatabase name)
  let s ← Prog.get
  if s.databaseExists name then
    Prog.stop (errorResult command "database already exists" name)
  else if ← catalogCreate files name then
    pure { message := "database created", rowCount := 0 }
  else
    Prog.stop (errorResult command "could not create database" name)

def useDatabase (name : String) : SwitchIo QueryResult := do
  let s ← Prog.get
  if ¬ s.databaseExists name then
    Prog.stop (errorResult command "unknown database" name)
  else
    Prog.modify (selectDatabase name)
    pure { message := "database changed", rowCount := 0 }

/-- The directory is removed through an object of its own, which is never in a transaction. -/
def dropDatabase (name : String) : SwitchIo QueryResult := do
  let s ← Prog.get
  if ¬ s.databaseExists name then
    Prog.stop (errorResult command "unknown database" name)
  else if ← catalogDrop files name then
    Prog.modify fun s => if s.currentDatabase = name then clearDatabase s else s
    pure { message := "database dropped", rowCount := 0 }
  else
    Prog.stop (errorResult command "could not drop database" name)

end Statements

end SwitchingExecutor

inductive DatabaseStatement where
  | create (name : String)
  | use (name : String)
  | drop (name : String)

def DatabaseStatement.run (command : String) (files : DirectoryAnswers) :
    DatabaseStatement → SwitchIo QueryResult
  | .create name => SwitchingExecutor.createDatabase command files name
  | .use name => SwitchingExecutor.useDatabase command name
  | .drop name => SwitchingExecutor.dropDatabase command files name

/-! ## What a statement should keep -/

/-- The log holds the end of the transaction. -/
def Ended (log : List WalRecord) (transactionId : Nat) : Prop :=
  Committed log transactionId ∨ Aborted log transactionId

instance (log : List WalRecord) (transactionId : Nat) : Decidable (Ended log transactionId) := by
  unfold Ended
  infer_instance

namespace SwitchingExecutor

/-- A refused statement changes neither the current database nor the open transaction. One that
succeeds releases the locks of a transaction only once the log holds the transaction's end. -/
def SwitchesSafely (s : SwitchingExecutor) :
    Except QueryError QueryResult × SwitchingExecutor → Prop
  | (.error _, t) =>
    t.currentDatabase = s.currentDatabase ∧ t.openTransaction = s.openTransaction
  | (.ok _, t) =>
    ∀ r ∈ t.released.drop s.released.length, Ended r.log r.transaction.transactionId

/-- The log holds the end of the open transaction, if there is one. -/
def OpenIsEnded (s : SwitchingExecutor) : Prop :=
  ∀ x, s.openTransaction = some x → Ended (s.wal s.currentDatabase) x.transactionId

/-- `CREATE DATABASE` makes the directory. -/
def Creatable (s : SwitchingExecutor) (files : DirectoryAnswers) (name : String) : Prop :=
  s.databaseExists name = false ∧ Column.isValidName name = true ∧ files.created = true ∧
    files.synced = true

/-- `DROP DATABASE` removes the directory. -/
def Droppable (s : SwitchingExecutor) (files : DirectoryAnswers) (name : String) : Prop :=
  s.databaseExists name = true ∧ Column.isValidName name = true ∧ files.removed = true ∧
    files.synced = true

/-- When a statement switches safely: the transaction of an object that it destroys has ended,
and a `CREATE DATABASE` that is refused names the current database, outside a transaction. -/
def SafeToSwitch (s : SwitchingExecutor) (files : DirectoryAnswers) : DatabaseStatement → Prop
  | .create name =>
    (s.Creatable files name → s.OpenIsEnded) ∧
      (¬s.Creatable files name → name = s.currentDatabase ∧ s.openTransaction = none)
  | .use name => s.databaseExists name = true → s.OpenIsEnded
  | .drop name => s.Droppable files name → name = s.currentDatabase → s.OpenIsEnded

/-! ## The destructor -/

theorem openTransaction_selectDatabase (name : String) (s : SwitchingExecutor) :
    (selectDatabase name s).openTransaction = none := rfl

theorem databaseExists_selectDatabase (name : String) (s : SwitchingExecutor) :
    (selectDatabase name s).databaseExists = s.databaseExists := by
  unfold selectDatabase destroyDatabase
  cases s.openTransaction with
  | none => rfl
  | some x => rfl

/-- The locks are released with the log as it is. -/
theorem ended_of_destroyed_iff (s : SwitchingExecutor) :
    (∀ r ∈ s.destroyDatabase.released.drop s.released.length,
      Ended r.log r.transaction.transactionId) ↔ s.OpenIsEnded := by
  unfold destroyDatabase OpenIsEnded
  cases s.openTransaction with
  | none => simp
  | some x => simp

/-! ## The statements -/

section Results

variable (command : String) (files : DirectoryAnswers) (name : String) (s : SwitchingExecutor)

/-- A successful switch releases what the destructor releases. -/
theorem switchesSafely_ok_iff {r : QueryResult} {t : SwitchingExecutor}
    (h : t.released = s.destroyDatabase.released) :
    s.SwitchesSafely (.ok r, t) ↔ s.OpenIsEnded := by
  rw [← ended_of_destroyed_iff, ← h]
  exact Iff.rfl

theorem createDatabase_cases :
    (s.Creatable files name ∧ ∃ r t, createDatabase command files name s = (.ok r, t) ∧
      t.released = s.destroyDatabase.released) ∨
    (¬s.Creatable files name ∧ ∃ e t, createDatabase command files name s = (.error e, t) ∧
      t.currentDatabase = name ∧ t.openTransaction = none) := by
  have hsame := databaseExists_selectDatabase name s
  unfold createDatabase
  rw [Prog.bind_ok (Prog.modify_apply _ s), Prog.bind_ok (Prog.get_apply _), hsame]
  by_cases hexists : s.databaseExists name = true
  · rw [if_pos hexists]
    refine .inr ⟨fun h => ?_, _, _, rfl, rfl, openTransaction_selectDatabase name s⟩
    rw [h.1] at hexists
    cases hexists
  · rw [if_neg hexists]
    unfold catalogCreate
    by_cases hmade : Column.isValidName name = true ∧ files.created = true
    · rw [if_pos hmade]
      cases hsync : files.synced with
      | true => exact .inl ⟨⟨by simpa using hexists, hmade.1, hmade.2, hsync⟩, _, _, rfl, rfl⟩
      | false =>
        refine .inr ⟨fun h => ?_, _, _, rfl, rfl, rfl⟩
        rw [h.2.2.2] at hsync
        cases hsync
    · rw [if_neg hmade]
      exact .inr ⟨fun h => hmade ⟨h.2.1, h.2.2.1⟩, _, _, rfl, rfl, rfl⟩

theorem createDatabase_switchesSafely_iff :
    s.SwitchesSafely (createDatabase command files name s) ↔
      s.SafeToSwitch files (.create name) := by
  rcases createDatabase_cases command files name s with ⟨hc, r, t, hrun, hrel⟩ |
    ⟨hc, e, t, hrun, hname, hopen⟩
  · rw [hrun, switchesSafely_ok_iff s hrel]
    exact ⟨fun h => ⟨fun _ => h, fun hn => absurd hc hn⟩, fun h => h.1 hc⟩
  · rw [hrun]
    simp only [SwitchesSafely, SafeToSwitch, hname, hopen, eq_comm (a := none), hc, false_imp_iff,
      not_false_eq_true, true_imp_iff, true_and]

theorem useDatabase_switchesSafely_iff :
    s.SwitchesSafely (useDatabase command name s) ↔ s.SafeToSwitch files (.use name) := by
  unfold useDatabase
  rw [Prog.bind_ok (Prog.get_apply s)]
  by_cases hexists : s.databaseExists name = true
  · rw [if_neg (not_not.mpr hexists), Prog.bind_ok (Prog.modify_apply _ s)]
    have hok := switchesSafely_ok_iff s (r := { message := "database changed", rowCount := 0 })
      (t := selectDatabase name s) rfl
    exact hok.trans ⟨fun h _ => h, fun h => h hexists⟩
  · rw [if_pos hexists]
    exact ⟨fun _ h => absurd h hexists, fun _ => ⟨rfl, rfl⟩⟩

/-- `Catalog::drop_database` changes nothing but which databases exist. -/
theorem catalogDrop_eq : ∃ dropped e,
    catalogDrop files name s = (.ok dropped, { s with databaseExists := e }) ∧
      (dropped = true ↔ s.Droppable files name) := by
  unfold catalogDrop Droppable
  rw [Prog.bind_ok (Prog.get_apply s)]
  by_cases hremoved : Column.isValidName name = true ∧ s.databaseExists name = true ∧
      files.removed = true
  · rw [if_pos hremoved, Prog.bind_ok (Prog.modify_apply _ s)]
    exact ⟨_, _, rfl, by simp [hremoved]⟩
  · rw [if_neg hremoved]
    exact ⟨false, s.databaseExists, rfl, by simp; tauto⟩

theorem dropDatabase_switchesSafely_iff :
    s.SwitchesSafely (dropDatabase command files name s) ↔ s.SafeToSwitch files (.drop name) := by
  unfold dropDatabase
  rw [Prog.bind_ok (Prog.get_apply s)]
  by_cases hexists : s.databaseExists name = true
  · rw [if_neg (not_not.mpr hexists)]
    obtain ⟨dropped, e, hrun, hdropped⟩ := catalogDrop_eq files name s
    rw [Prog.bind_ok hrun]
    cases dropped with
    | false =>
      have hno : ¬s.Droppable files name := fun h => absurd (hdropped.mpr h) Bool.false_ne_true
      exact ⟨fun _ h => absurd h hno, fun _ => ⟨rfl, rfl⟩⟩
    | true =>
      have hyes : s.Droppable files name := hdropped.mp rfl
      rw [if_pos rfl, Prog.bind_ok (Prog.modify_apply _ _)]
      by_cases hname : s.currentDatabase = name
      · -- the object of the current database goes with it
        have hok := switchesSafely_ok_iff s (r := { message := "database dropped", rowCount := 0 })
          (t := clearDatabase { s with databaseExists := e }) (by
            unfold clearDatabase destroyDatabase openTransaction
            cases s.database.join with
            | none => rfl
            | some x => rfl)
        rw [Prog.pure_apply, if_pos hname]
        exact hok.trans ⟨fun h _ _ => h, fun h => h hyes hname.symm⟩
      · have hno : name ≠ s.currentDatabase := fun h => hname h.symm
        simp [hname, hno, SafeToSwitch, SwitchesSafely]
  · rw [if_pos hexists]
    exact ⟨fun _ h => absurd h.1 hexists, fun _ => ⟨rfl, rfl⟩⟩

end Results

/-- A statement that switches databases does so safely where the objects it destroys have no
open transaction, or one that has ended, and it is not refused after it has already switched. -/
theorem switchesSafely_iff (command : String) (files : DirectoryAnswers) (st : DatabaseStatement)
    (s : SwitchingExecutor) :
    s.SwitchesSafely (st.run command files s) ↔ s.SafeToSwitch files st := by
  cases st with
  | create name => exact createDatabase_switchesSafely_iff command files name s
  | use name => exact useDatabase_switchesSafely_iff command files name s
  | drop name => exact dropDatabase_switchesSafely_iff command files name s

/-- In the database `a`, with the transaction 1 begun and a table locked; `b` exists too. -/
def midTransaction : SwitchingExecutor where
  databaseExists name := name = "a" || name = "b"
  wal name :=
    if name = "a" then
      [{ lsn := 1, type := .beginTransaction, transactionId := 1, pageId := 0, tableFile := [],
         beforeImage := [], afterImage := [], activeTransactions := [] }]
    else []
  currentDatabase := "a"
  database := some (some { transactionId := 1, transactionAborted := false, activeLocks := ["a/t"] })

/-- A refused `CREATE DATABASE` leaves the database and its transaction, and a `USE` releases the
locks of a transaction that has not ended. -/
theorem midTransaction_switch_unsafe :
    ¬midTransaction.SwitchesSafely (DatabaseStatement.run "CREATE DATABASE b;" ⟨true, true, true⟩
        (.create "b") midTransaction) ∧
      ¬midTransaction.SwitchesSafely (DatabaseStatement.run "USE b;" ⟨true, true, true⟩ (.use "b")
        midTransaction) := by
  constructor
  · rintro ⟨hname, -⟩
    revert hname
    decide
  · intro h
    have hended := (useDatabase_switchesSafely_iff _ ⟨true, true, true⟩ "b" _).mp h (by decide) _ rfl
    revert hended
    decide

end SwitchingExecutor

end ScratchDb
