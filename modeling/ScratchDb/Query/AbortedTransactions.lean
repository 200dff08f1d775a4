import ScratchDb.Query.Executor

/-!
# Failed statements in a transaction

What a failed statement does to the transaction it is part of: the transaction
has to be rolled back exactly when it is marked aborted, and a statement marks
it exactly when the log, the catalog or a file has failed one of its writes.
-/

namespace ScratchDb

open Database

variable {ε α β : Type}

/-! ## A transaction that has to be rolled back -/

/-- What may follow in a transaction before it is rolled back. -/
inductive Later where
  | modify (parser : ValueParser) (command : String) (st : Statement)
  | commit

namespace Later

/-- Whether it fails. -/
def fails (db : Database) : Later → Bool
  | .modify parser command st =>
    match (st.run parser command db).1 with
    | .ok _ => false
    | .error _ => true
  | .commit =>
    match ((commitTransaction : Prog Unit Database Bool) db).1 with
    | .ok committed => !committed
    | .error _ => true

def after (db : Database) : Later → Database
  | .modify parser command st => (st.run parser command db).2
  | .commit => ((commitTransaction : Prog Unit Database Bool) db).2

/-- Each of a list fails, whatever the surroundings answer. -/
def AllFail : Database → List (List Answer × Later) → Prop
  | _, [] => True
  | db, (answers, l) :: ls =>
    l.fails { db with answers } = true ∧ AllFail (l.after { db with answers }) ls

end Later

/-- Every later modifying statement and `COMMIT` fails. -/
def MustRollBack (db : Database) : Prop := ∀ ls, Later.AllFail db ls

/-! ## Aborted transactions -/

section Aborted

variable {db : Database} (hin : db.inTransaction = true) (haborted : db.transactionAborted = true)
include hin haborted

theorem acquireTransactionLock_aborted (name : String) (mode : TableLockMode) :
    (acquireTransactionLock name mode : Prog ε Database Bool) db = (.ok false, db) := by
  simp [acquireTransactionLock, Prog.bind_apply, hin, haborted]

theorem tableExists_aborted (name : String) :
    (tableExists name : Prog ε Database Bool) db = (.ok false, db) := by
  rw [tableExists, Prog.bind_ok (acquireTransactionLock_aborted hin haborted name .shared)]
  rfl

theorem createTable_aborted (schema : Schema) :
    (createTable schema : Prog ε Database Bool) db = (.ok false, db) := by
  rw [createTable,
    Prog.bind_ok (acquireTransactionLock_aborted hin haborted schema.tableName .exclusive)]
  rfl

theorem withSchema_aborted (command name : String) (body : Schema → Prog QueryError Database α) :
    withSchema command name body db = (.error (errorResult command "unknown table" name), db) := by
  have hload : (loadSchema name : Prog QueryError Database (Option Schema)) db = (.ok none, db) := by
    rw [loadSchema, Prog.bind_ok (acquireTransactionLock_aborted hin haborted name .shared)]
    rfl
  rw [withSchema, Prog.bind_ok hload]
  rfl

/-- In an aborted transaction every modifying statement fails and does nothing. -/
theorem Statement.run_aborted (parser : ValueParser) (command : String) (st : Statement) :
    ∃ e, st.run parser command db = (.error e, db) := by
  cases st with
  | insert => exact ⟨_, withSchema_aborted hin haborted command _ _⟩
  | insertSelect => exact ⟨_, withSchema_aborted hin haborted command _ _⟩
  | update => exact ⟨_, withSchema_aborted hin haborted command _ _⟩
  | updateAssign => exact ⟨_, withSchema_aborted hin haborted command _ _⟩
  | delete => exact ⟨_, withSchema_aborted hin haborted command _ _⟩
  | addConstraint => exact ⟨_, withSchema_aborted hin haborted command _ _⟩
  | dropConstraint => exact ⟨_, withSchema_aborted hin haborted command _ _⟩
  | createIndex => exact ⟨_, withSchema_aborted hin haborted command _ _⟩
  | dropIndex => exact ⟨_, withSchema_aborted hin haborted command _ _⟩
  | dropTable name =>
    refine ⟨errorResult command "unknown table" name, ?_⟩
    rw [Statement.run, dropTableStatement, Prog.bind_ok (tableExists_aborted hin haborted name)]
    rfl
  | createTable parts ifNotExists =>
    rw [Statement.run, createTableStatement,
      Prog.bind_ok (tableExists_aborted hin haborted parts.tableName)]
    cases hmake : Schema.make parts with
    | error e => exact ⟨_, rfl⟩
    | ok schema =>
      refine ⟨errorResult command "could not create table" parts.tableName, ?_⟩
      simp only [Bool.false_eq_true, if_false]
      rw [Prog.bind_ok (createTable_aborted hin haborted schema)]
      rfl

theorem Later.fails_aborted (l : Later) : l.fails db = true ∧ l.after db = db := by
  cases l with
  | modify parser command st =>
    obtain ⟨e, he⟩ := st.run_aborted hin haborted parser command
    simp [fails, after, he]
  | commit => simp [fails, after, commitTransaction, Prog.bind_apply, hin, haborted]

theorem mustRollBack_of_aborted : MustRollBack db := by
  intro ls
  induction ls generalizing db with
  | nil => trivial
  | cons l ls ih =>
    obtain ⟨answers, l⟩ := l
    have hin' : ({ db with answers } : Database).inTransaction = true := hin
    have h := Later.fails_aborted hin' haborted l
    refine ⟨h.1, ?_⟩
    rw [h.2]
    exact ih hin haborted

end Aborted

/-- A transaction that is not aborted can be committed. -/
theorem mustRollBack_iff_aborted {db : Database} (hin : db.inTransaction = true) :
    MustRollBack db ↔ db.transactionAborted = true := by
  constructor
  · intro h
    by_contra haborted
    have hcommit := (h [([.done ⟨0, 0⟩], .commit)]).1
    simp [Later.fails, commitTransaction, Prog.bind_apply, hin, haborted, ask] at hcommit
  · exact mustRollBack_of_aborted hin

/-! ## What marks a transaction aborted -/

/-- The writes that the log, the catalog or a file has failed. -/
def Database.failedWrites (db : Database) : Nat :=
  db.events.countP fun
    | .writeFailed => true
    | .changed .. => false

/-- From `s` to `t` the transaction stays open, and it is marked aborted with a failed write and
only then. -/
def Tracks (s t : Database) : Prop :=
  s.inTransaction = true → t.inTransaction = true ∧ s.failedWrites ≤ t.failedWrites ∧
    (t.transactionAborted = true ↔
      s.transactionAborted = true ∨ s.failedWrites < t.failedWrites)

theorem Tracks.refl (s : Database) : Tracks s s := fun hin => ⟨hin, le_rfl, by simp⟩

theorem Tracks.trans (r s t : Database) (h1 : Tracks r s) (h2 : Tracks s t) : Tracks r t := by
  intro hin
  obtain ⟨hs, hle, hiff⟩ := h1 hin
  obtain ⟨ht, hle', hiff'⟩ := h2 hs
  refine ⟨ht, hle.trans hle', ?_⟩
  rw [hiff', hiff]
  cases r.transactionAborted with
  | true => simp
  | false =>
    simp only [Bool.false_eq_true, false_or]
    omega

/-- A program whose runs mark a transaction aborted with a failed write and only then. -/
def Marks (m : Prog ε Database α) : Prop := Prog.Keeps Tracks m

namespace Marks

theorem pure (a : α) : Marks (Pure.pure a : Prog ε Database α) := Prog.keeps_pure Tracks.refl a

theorem stop (e : ε) : Marks (Prog.stop e : Prog ε Database α) := Prog.keeps_stop Tracks.refl e

theorem get : Marks (Prog.get : Prog ε Database Database) := Prog.keeps_get Tracks.refl

theorem bind {m : Prog ε Database α} {f : α → Prog ε Database β} (hm : Marks m)
    (hf : ∀ a, Marks (f a)) : Marks (m >>= f) := Prog.keeps_bind Tracks.trans hm hf

/-- A change that concerns neither the flag nor the failed writes. -/
theorem modify {f : Database → Database} (hin : ∀ s, (f s).inTransaction = s.inTransaction)
    (haborted : ∀ s, (f s).transactionAborted = s.transactionAborted)
    (hfailed : ∀ s, (f s).failedWrites = s.failedWrites) :
    Marks (Prog.modify f : Prog ε Database Unit) := fun s hs => by
  simp [hin, haborted, hfailed, hs]

theorem withSource (command : String) {m : Prog QueryError Database α} (hm : Marks m) :
    Marks (ScratchDb.withSource command m) := by
  intro s hs
  have h := hm s hs
  unfold ScratchDb.withSource
  rcases hr : m s with ⟨e | a, t⟩ <;> simpa [hr] using h

theorem ite {p : Prop} [Decidable p] {m n : Prog ε Database α} (hm : Marks m) (hn : Marks n) :
    Marks (if p then m else n) := by
  split
  · exact hm
  · exact hn

end Marks

/-! ### The operations of a database -/

theorem marks_ask : Marks (ask : Prog ε Database Answer) := by
  intro s hs
  unfold ask
  cases s.answers with
  | nil => exact Tracks.refl s hs
  | cons a answers => exact Tracks.refl s hs

theorem marks_change (c : Change) : Marks (change c : Prog ε Database Unit) :=
  .modify (fun _ => rfl) (fun _ => rfl) fun _ => List.countP_cons_of_neg (by simp)

/-- Here alone a transaction is marked. -/
theorem marks_abortStatement : Marks (abortStatement : Prog ε Database Unit) := by
  intro s hs
  have hcount : ((abortStatement : Prog ε Database Unit) s).2.failedWrites = s.failedWrites + 1 :=
    List.countP_cons_of_pos rfl
  refine ⟨hs, by omega, ?_⟩
  rw [hcount]
  simp [abortStatement, hs]

theorem marks_writeFails (stays : Bool) (c : Change) :
    Marks (writeFails stays c : Prog ε Database Unit) :=
  Marks.get.bind fun _ =>
    Marks.ite ((marks_change c).bind fun _ => marks_abortStatement) marks_abortStatement

theorem marks_obtain (name : String) (mode : TableLockMode) :
    Marks (acquireTransactionLock.obtain name mode : Prog ε Database Bool) := by
  refine marks_ask.bind fun answer => ?_
  cases answer with
  | done id => exact Marks.bind (.modify (fun _ => rfl) (fun _ => rfl) fun _ => rfl) fun _ => .pure true
  | failed => exact .pure false

theorem marks_acquireTransactionLock (name : String) (mode : TableLockMode) :
    Marks (acquireTransactionLock name mode : Prog ε Database Bool) := by
  refine Marks.get.bind fun db => Marks.ite (.pure _) (Marks.ite (.pure _) ?_)
  cases db.activeTableLocks name with
  | none => exact marks_obtain name mode
  | some held =>
    exact Marks.ite (.pure _) (Marks.bind (.modify (fun _ => rfl) (fun _ => rfl) fun _ => rfl)
      fun _ => marks_obtain name mode)

/-- What is done under a lock, if it is granted. -/
theorem marks_locked (name : String) (mode : TableLockMode) {refused granted : Prog ε Database α}
    (hrefused : Marks refused) (hgranted : Marks granted) :
    Marks (acquireTransactionLock name mode >>= fun locked =>
      if ¬ locked = true then refused else granted) :=
  (marks_acquireTransactionLock name mode).bind fun _ => .ite hrefused hgranted

theorem marks_tableExists (name : String) : Marks (tableExists name : Prog ε Database Bool) :=
  marks_locked name .shared (.pure _) (Marks.get.bind fun _ => .pure _)

theorem marks_loadSchema (name : String) :
    Marks (loadSchema name : Prog ε Database (Option Schema)) :=
  marks_locked name .shared (.pure _) (Marks.get.bind fun _ => .pure _)

theorem marks_createTable (schema : Schema) :
    Marks (createTable schema : Prog ε Database Bool) := by
  refine marks_locked _ _ (.pure _) (marks_ask.bind fun answer => ?_)
  cases answer with
  | failed stays => exact (marks_writeFails stays _).bind fun _ => .pure _
  | done id =>
    have hfails := (marks_abortStatement (ε := ε)).bind fun _ => Marks.pure false
    refine Marks.get.bind fun _ => Marks.ite (Marks.get.bind fun _ => Marks.ite ?_ hfails)
      ((marks_change _).bind fun _ => .pure _)
    exact (marks_change _).bind fun _ => hfails

theorem marks_dropTable (name : String) : Marks (dropTable name : Prog ε Database Bool) := by
  refine marks_locked _ _ (.pure _) (Marks.get.bind fun _ => Marks.ite (.pure _)
    (marks_ask.bind fun answer => ?_))
  cases answer with
  | failed stays => exact (marks_writeFails stays _).bind fun _ => .pure _
  | done id => exact (marks_change _).bind fun _ => .pure _

theorem marks_insertRow (name : String) (values : List Value) :
    Marks (insertRow name values : Prog ε Database (Option RecordId)) := by
  refine marks_locked _ _ (.pure _) (Marks.get.bind fun db => ?_)
  cases db.tables name with
  | none => exact .pure _
  | some table =>
    refine Marks.ite (.pure _) (marks_ask.bind fun answer => ?_)
    cases answer with
    | done id => exact Marks.ite (.pure _) ((marks_change _).bind fun _ => .pure _)
    | failed stays id =>
      exact Marks.ite ((marks_writeFails _ _).bind fun _ => .pure _) (.pure _)

theorem marks_deleteRow (name : String) (id : RecordId) :
    Marks (deleteRow name id : Prog ε Database Bool) := by
  refine marks_locked _ _ (.pure _) (Marks.get.bind fun db => ?_)
  cases db.tables name with
  | none => exact .pure _
  | some table =>
    dsimp only
    split
    · exact Marks.ite (.pure _) ((marks_change _).bind fun _ => .pure _)
    · refine Marks.ite (marks_abortStatement.bind fun _ => .pure _)
        (marks_ask.bind fun answer => ?_)
      cases answer with
      | done id => exact (marks_change _).bind fun _ => .pure _
      | failed stays => exact (marks_writeFails stays _).bind fun _ => .pure _

theorem marks_updateRow (name : String) (id : RecordId) (values : List Value) :
    Marks (updateRow name id values : Prog ε Database Bool) := by
  refine marks_locked _ _ (.pure _) (Marks.get.bind fun db => ?_)
  cases db.tables name with
  | none => exact .pure _
  | some table =>
    refine Marks.ite (.pure _) ?_
    cases table.find id with
    | none => exact Marks.ite (marks_abortStatement.bind fun _ => .pure _) (.pure _)
    | some old =>
      refine marks_ask.bind fun answer => ?_
      cases answer with
      | done newId => exact (marks_change _).bind fun _ => .pure _
      | failed stays newId =>
        exact Marks.ite ((marks_writeFails _ _).bind fun _ => .pure _) (.pure _)

theorem marks_replaceSchema (name : String) (parts : SchemaParts) :
    Marks (replaceSchema name parts : Prog ε Database Bool) := by
  unfold replaceSchema
  cases Schema.make parts with
  | error e => exact .pure _
  | ok schema =>
    refine marks_ask.bind fun answer => ?_
    cases answer with
    | failed stays => exact (marks_writeFails stays _).bind fun _ => .pure _
    | done id => exact (marks_change _).bind fun _ => .pure _

/-- What is done to a table, under its exclusive lock, if it is there. -/
theorem marks_lockedTable (name : String) {f : StoredTable → Prog ε Database Bool}
    (hf : ∀ table, Marks (f table)) :
    Marks (acquireTransactionLock name .exclusive >>= fun locked =>
      if ¬ locked = true then pure false
      else Prog.get >>= fun db =>
        match db.tables name with
        | none => pure false
        | some table => f table) := by
  refine marks_locked _ _ (.pure _) (Marks.get.bind fun db => ?_)
  cases db.tables name with
  | none => exact .pure _
  | some table => exact hf table

theorem marks_addConstraint (name : String) (c : ConstraintDefinition) :
    Marks (addConstraint name c : Prog ε Database Bool) :=
  marks_lockedTable name fun _ => marks_replaceSchema name _

theorem marks_dropConstraint (name : String) (id : Nat) :
    Marks (dropConstraint name id : Prog ε Database Bool) :=
  marks_lockedTable name fun _ => Marks.ite (.pure _) (marks_replaceSchema name _)

theorem marks_createIndex (name indexName columnName : String) (unique : Bool) :
    Marks (createIndex name indexName columnName unique : Prog ε Database Bool) :=
  marks_lockedTable name fun _ => Marks.ite (.pure _) (marks_replaceSchema name _)

theorem marks_dropIndex (name indexName : String) :
    Marks (dropIndex name indexName : Prog ε Database Bool) :=
  marks_lockedTable name fun _ => Marks.ite (.pure _) (marks_replaceSchema name _)

theorem marks_scanRows {body : α → TableRow → Prog ε Database (Bool × α)}
    (h : ∀ a r, Marks (body a r)) (name : String) (a : α) : Marks (scanRows body name a) :=
  keeps_scanRows Tracks.refl Tracks.trans (marks_acquireTransactionLock name .shared) h a

/-! ### Statements -/

section Statements

variable (parser : ValueParser) (command name : String) (schema : Schema)

theorem marks_keyCallback (values : List Value) (ignore : Option RecordId)
    (c : ConstraintDefinition) (found : Bool) (row : TableRow) :
    Marks (keyCallback schema values ignore c found row) :=
  Marks.ite (.pure _) (Marks.ite (.pure _) (.pure _))

theorem marks_foreignKeyCallback (refIndex : Nat) (value : Value) (found : Bool) (row : TableRow) :
    Marks (foreignKeyCallback refIndex value found row) := by
  unfold foreignKeyCallback
  cases row.values[refIndex]? with
  | none => exact .pure _
  | some stored => exact Marks.ite (.pure _) (.pure _)

theorem marks_rowSatisfiesKey (values : List Value) (ignore : Option RecordId)
    (c : ConstraintDefinition) : Marks (rowSatisfiesKey name schema values ignore c) :=
  Marks.ite (.stop _) ((marks_scanRows (marks_keyCallback schema values ignore c) name false).bind
    fun _ => Marks.ite (.stop _) (.pure _))

theorem marks_rowSatisfiesForeignKey (values : List Value) (c : ConstraintDefinition) :
    Marks (rowSatisfiesForeignKey schema values c) := by
  unfold rowSatisfiesForeignKey
  split
  case h_2 => exact .pure _
  case h_1 =>
    dsimp only
    split
    · exact .pure _
    · refine Marks.ite (.pure _) ((marks_loadSchema _).bind fun _ => ?_)
      split
      · split
        · refine Marks.ite ((marks_scanRows (marks_foreignKeyCallback _ _) _ false).bind
            fun _ => Marks.ite (.pure _) (.stop _)) (.stop _)
        · exact .stop _
      · exact .stop _

theorem marks_rowSatisfiesConstraint (values : List Value) (ignore : Option RecordId)
    (c : ConstraintDefinition) :
    Marks (rowSatisfiesConstraint parser name schema values ignore c) := by
  unfold rowSatisfiesConstraint
  cases c.kind with
  | primaryKey => exact marks_rowSatisfiesKey name schema values ignore c
  | unique => exact marks_rowSatisfiesKey name schema values ignore c
  | foreignKey => exact marks_rowSatisfiesForeignKey schema values c
  | check =>
    dsimp only
    split
    · exact .pure _
    · exact .stop _

theorem marks_rowSatisfiesConstraints (values : List Value) (ignore : Option RecordId)
    (cs : List ConstraintDefinition) :
    Marks (rowSatisfiesConstraints parser name schema values ignore cs) := by
  induction cs with
  | nil => exact .pure _
  | cons c cs ih =>
    exact (marks_rowSatisfiesConstraint parser name schema values ignore c).bind fun _ => ih

theorem marks_rowSatisfiesSchemaConstraints (values : List Value) (ignore : Option RecordId) :
    Marks (rowSatisfiesSchemaConstraints parser command name schema values ignore) :=
  (marks_rowSatisfiesConstraints parser name schema values ignore _).withSource command

theorem marks_insertLoop (rows : List (Except QueryError (List Value))) :
    Marks (insertLoop parser command name schema rows) := by
  induction rows with
  | nil => exact .pure _
  | cons row rows ih =>
    refine Marks.bind ?_ fun _ => ih
    unfold insertChecked
    cases row with
    | error e => exact .stop e
    | ok values =>
      refine (marks_rowSatisfiesSchemaConstraints parser command name schema values none).bind
        fun _ => (marks_insertRow name values).bind fun r => ?_
      cases r with
      | none => exact .stop _
      | some id => exact .pure _

theorem marks_withSchema {body : Schema → Prog QueryError Database α}
    (h : ∀ schema, Marks (body schema)) : Marks (withSchema command name body) := by
  refine (marks_loadSchema name).bind fun schema => ?_
  cases schema with
  | none => exact .stop _
  | some schema => exact h schema

theorem marks_orStop (r : Except QueryError α) : Marks (orStop r) := by
  cases r with
  | ok a => exact .pure a
  | error e => exact .stop e

theorem marks_scanStatement (done : String) {body : Nat → TableRow → Prog QueryError Database Nat}
    (h : ∀ count row, Marks (body count row)) : Marks (scanStatement command name done body) :=
  (marks_scanRows (fun count row => ((h count row).withSource command).bind fun _ => .pure _)
    name 0).bind fun _ => Marks.ite (.pure _) (.stop _)

theorem marks_updateLoop (condition : Option QueryCondition)
    (newValues : List Value → Except QueryError (List Value)) :
    Marks (updateLoop parser command name schema condition newValues) :=
  marks_scanStatement command name _ fun _ _ => (marks_orStop _).bind fun _ =>
    Marks.ite ((marks_orStop _).bind fun _ =>
      (marks_rowSatisfiesSchemaConstraints parser command name schema _ _).bind fun _ =>
        (marks_updateRow name _ _).bind fun _ => Marks.ite (.pure _) (.pure _)) (.pure _)

theorem marks_createTableStatement (parts : SchemaParts) (ifNotExists : Bool) :
    Marks (createTableStatement command parts ifNotExists) := by
  refine (marks_tableExists _).bind fun _ => Marks.ite (Marks.ite (.pure _) (.stop _)) ?_
  cases Schema.make parts with
  | error e => exact .stop _
  | ok schema => exact (marks_createTable schema).bind fun _ => Marks.ite (.pure _) (.stop _)

theorem marks_alterAddConstraint (constraints : List ConstraintDefinition) :
    Marks (alterAddConstraint parser command name constraints) := by
  refine marks_withSchema command name fun schema => ?_
  split
  case h_2 => exact .stop _
  case h_1 c =>
    dsimp only
    split
    · exact .stop _
    · refine (marks_scanRows (fun _ row =>
        (marks_rowSatisfiesSchemaConstraints parser command name _ row.values _).bind
          fun _ => .pure _) name ()).bind fun _ => Marks.ite (.stop _) ?_
      exact (marks_addConstraint name c).bind fun _ => Marks.ite (.pure _) (.stop _)

end Statements

/-- Every statement marks a transaction aborted with a failed write and only then. -/
theorem Statement.marks_run (parser : ValueParser) (command : String) (st : Statement) :
    Marks (st.run parser command) := by
  cases st with
  | insert name columns rows =>
    exact marks_withSchema command name fun schema => Marks.ite (.stop _)
      ((marks_insertLoop parser command name schema _).bind fun _ => .pure _)
  | insertSelect name columns source =>
    refine marks_withSchema command name fun schema => ?_
    cases source with
    | error e => exact .stop e
    | ok source =>
      exact Marks.ite (.stop _)
        ((marks_insertLoop parser command name schema _).bind fun _ => .pure _)
  | update name valuesText condition =>
    refine marks_withSchema command name fun schema => ?_
    cases parseRow parser schema valuesText (tokenPosition command valuesText) with
    | error e => exact .stop _
    | ok values => exact marks_updateLoop parser command name schema condition _
  | updateAssign name assignments condition =>
    exact marks_withSchema command name fun schema => Marks.ite (.stop _)
      (marks_updateLoop parser command name schema condition _)
  | delete name condition =>
    exact marks_withSchema command name fun schema => marks_scanStatement command name _
      fun _ row => (marks_orStop _).bind fun _ => Marks.ite
        ((marks_deleteRow name row.recordId).bind fun _ => Marks.ite (.pure _) (.pure _)) (.pure _)
  | createTable parts ifNotExists => exact marks_createTableStatement command parts ifNotExists
  | dropTable name =>
    exact (marks_tableExists name).bind fun _ => Marks.ite (.stop _)
      ((marks_dropTable name).bind fun _ => Marks.ite (.pure _) (.stop _))
  | addConstraint name constraints => exact marks_alterAddConstraint parser command name constraints
  | dropConstraint name id =>
    exact marks_withSchema command name fun _ => (marks_dropConstraint name id).bind
      fun _ => Marks.ite (.pure _) (.stop _)
  | createIndex name index column unique =>
    exact marks_withSchema command name fun _ => Marks.ite (.stop _)
      ((marks_createIndex name index column unique).bind fun _ => Marks.ite (.pure _) (.stop _))
  | dropIndex name index =>
    exact marks_withSchema command name fun _ => (marks_dropIndex name index).bind
      fun _ => Marks.ite (.pure _) (.stop _)

/-- Whether a write that the statement asks for fails. -/
def Statement.failsWrite (parser : ValueParser) (command : String) (db : Database)
    (st : Statement) : Bool :=
  db.failedWrites < (st.run parser command db).2.failedWrites

/-! ## A rejected value in a transaction -/

/-- A transaction on the empty table. -/
def numbersTransaction (answers : List Answer) : Database where
  tables := Function.update (fun _ => none) "numbers" (some (.empty numbersSchema))
  inTransaction := true
  transactionAborted := false
  activeTableLocks := fun _ => none
  answers
  events := []

end ScratchDb
