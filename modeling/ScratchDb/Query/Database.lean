import Mathlib.Data.List.DropRight
import ScratchDb.Concurrency.LockManager
import ScratchDb.Lib.Prog
import ScratchDb.Query.Schema
import ScratchDb.Storage.TableFile

/-!
# The operations of a database on its rows

Model of the operations of `Database` at the level of schemas and live rows,
for one session. What the session cannot decide, whether a lock is granted in
time and whether and where the log, the catalog, the table file and the index
files take a write, is answered by its surroundings, a list of answers that is
an input of the model.

Outside a transaction a statement that fails is rolled back, so its change is
made here only when it succeeds. In a transaction a failed statement marks the
transaction aborted, and what it has written may stay until the rollback.
-/

namespace ScratchDb

structure TableRow where
  recordId : RecordId
  values : List Value
deriving DecidableEq, Repr

namespace RecordId

/-- The order of a scan. -/
def precedes (a b : RecordId) : Bool :=
  a.pageId < b.pageId || (a.pageId = b.pageId && a.slotId < b.slotId)

theorem precedes_iff {a b : RecordId} :
    a.precedes b = true ↔ a.pageId < b.pageId ∨ a.pageId = b.pageId ∧ a.slotId < b.slotId := by
  simp [precedes]

theorem ne_of_precedes {a b : RecordId} (h : a.precedes b = true) : a ≠ b := by
  rintro rfl
  simp [precedes_iff] at h

theorem precedes_trans {a b c : RecordId} (hab : a.precedes b = true) (hbc : b.precedes c = true) :
    a.precedes c = true := by
  rw [precedes_iff] at hab hbc ⊢
  omega

theorem precedes_of_not {a b : RecordId} (h : a.precedes b = false) (hne : b ≠ a) :
    b.precedes a = true := by
  have h' : ¬ (a.pageId < b.pageId ∨ a.pageId = b.pageId ∧ a.slotId < b.slotId) := by
    rw [← precedes_iff, h]
    exact Bool.false_ne_true
  have hne' : ¬ (b.pageId = a.pageId ∧ b.slotId = a.slotId) := fun ⟨hp, hs⟩ => by
    cases a
    cases b
    exact hne (by simp_all)
  rw [precedes_iff]
  omega

end RecordId

/-! ## Rows in their places -/

/-- The rows are in the order of a scan, one in each place. -/
def InOrder (rows : List TableRow) : Prop :=
  rows.Pairwise fun a b => a.recordId.precedes b.recordId = true

/-- Put a row where a scan will find it. -/
def insertRowSorted (r : TableRow) : List TableRow → List TableRow
  | [] => [r]
  | x :: xs =>
    if r.recordId.precedes x.recordId then r :: x :: xs else x :: insertRowSorted r xs

theorem insertRowSorted_perm (r : TableRow) (rows : List TableRow) :
    (insertRowSorted r rows).Perm (r :: rows) := by
  induction rows with
  | nil => rfl
  | cons x xs ih =>
    rw [insertRowSorted]
    split
    · rfl
    · exact (ih.cons x).trans (List.Perm.swap r x xs)

@[simp] theorem mem_insertRowSorted {r x : TableRow} {rows : List TableRow} :
    x ∈ insertRowSorted r rows ↔ x = r ∨ x ∈ rows :=
  (insertRowSorted_perm r rows).mem_iff.trans List.mem_cons

theorem inOrder_insertRowSorted {r : TableRow} {rows : List TableRow} (h : InOrder rows)
    (hfree : ∀ x ∈ rows, x.recordId ≠ r.recordId) : InOrder (insertRowSorted r rows) := by
  induction rows with
  | nil => exact List.pairwise_singleton _ _
  | cons x xs ih =>
    obtain ⟨hx, hxs⟩ := List.pairwise_cons.mp h
    rw [insertRowSorted]
    split
    case isTrue hr =>
      refine List.pairwise_cons.mpr ⟨fun y hy => ?_, h⟩
      rcases List.mem_cons.mp hy with rfl | hy
      · exact hr
      · exact RecordId.precedes_trans hr (hx y hy)
    case isFalse hr =>
      have hxr := RecordId.precedes_of_not (Bool.not_eq_true _ ▸ hr) (hfree x List.mem_cons_self)
      refine List.pairwise_cons.mpr
        ⟨fun y hy => ?_, ih hxs fun y hy => hfree y (List.mem_cons_of_mem x hy)⟩
      rcases mem_insertRowSorted.mp hy with rfl | hy
      · exact hxr
      · exact hx y hy

/-- A table of the catalog with its live rows. -/
@[ext]
structure StoredTable where
  schema : Schema
  pageCount : Nat
  rows : List TableRow
  inOrder : InOrder rows
  inPages : ∀ r ∈ rows, r.recordId.pageId < pageCount

abbrev Tables := String → Option StoredTable

/-- A string of a disk table is padded with zero bytes, which are cut off when it is read. -/
def Value.padded : Value → Value
  | .string s => .string (s.rdropWhile (· = 0))
  | v => v

@[simp] theorem Value.padded_padded (v : Value) : v.padded.padded = v.padded := by
  cases v <;> simp [padded, List.rdropWhile_idempotent]

namespace StoredTable

def empty (schema : Schema) : StoredTable :=
  { schema, pageCount := 0, rows := [], inOrder := List.Pairwise.nil, inPages := by simp }

def find (t : StoredTable) (id : RecordId) : Option TableRow :=
  t.rows.find? fun r => r.recordId = id

/-- What a read of a stored row returns. -/
def stored (t : StoredTable) (values : List Value) : List Value :=
  match t.schema.storageMode with
  | .disk => values.map Value.padded
  | .memory => values

def remove (t : StoredTable) (id : RecordId) : StoredTable :=
  { t with
    rows := t.rows.filter fun r => r.recordId ≠ id
    inOrder := t.inOrder.filter _
    inPages := fun r hr => t.inPages r (List.mem_filter.mp hr).1 }

/-- Put a row in a place, in which there is no other row then. -/
def insert (t : StoredTable) (id : RecordId) (values : List Value) : StoredTable :=
  { schema := t.schema
    pageCount := max t.pageCount (id.pageId + 1)
    rows := insertRowSorted ⟨id, t.stored values⟩ (t.remove id).rows
    inOrder := inOrder_insertRowSorted (t.remove id).inOrder fun x hx => by
      simpa using (List.mem_filter.mp hx).2
    inPages := fun r hr => by
      rcases mem_insertRowSorted.mp hr with rfl | hr
      · exact Nat.lt_of_lt_of_le (Nat.lt_succ_self _) (le_max_right _ _)
      · exact Nat.lt_of_lt_of_le ((t.remove id).inPages r hr) (le_max_left _ _) }

end StoredTable

/-- `serialize` takes a row of as many values as columns, each matching its column. -/
def SchemaParts.accepts (s : SchemaParts) (values : List Value) : Bool :=
  values.length = s.columns.length && (values.zip s.columns).all fun (v, c) => v.matchesColumn c

/-! ## Changes -/

/-- What a statement does to the tables. -/
inductive Change where
  | create (schema : Schema)
  | drop (name : String)
  | alter (name : String) (schema : Schema)
  | insert (name : String) (id : RecordId) (values : List Value)
  | delete (name : String) (id : RecordId)
  | update (name : String) (id newId : RecordId) (values : List Value)

def Change.apply (t : Tables) : Change → Tables
  | .create schema =>
    Function.update t schema.tableName (some (.empty schema))
  | .drop name => Function.update t name none
  | .alter name schema =>
    Function.update t name ((t name).map fun table => { table with schema })
  | .insert name id values =>
    Function.update t name ((t name).map fun table => table.insert id values)
  | .delete name id => Function.update t name ((t name).map fun table => table.remove id)
  | .update name id newId values =>
    Function.update t name
      ((t name).map fun table => (table.remove id).insert newId values)

/-- What the surroundings answer. -/
inductive Answer where
  /-- the lock is granted; the write is made, and a row has this place -/
  | done (id : RecordId)
  /-- the lock is not granted; the write fails, and in a transaction it may stay in place -/
  | failed (stays : Bool) (id : RecordId)
deriving DecidableEq, Repr

/-- What happened in a run (not in the source). -/
inductive Event where
  | changed (before : Tables) (c : Change)
  /-- the log, the catalog or a file of a disk table failed a write -/
  | writeFailed

structure Database where
  tables : Tables
  inTransaction : Bool
  transactionAborted : Bool
  activeTableLocks : String → Option TableLockMode
  answers : List Answer
  /-- the last first -/
  events : List Event

namespace Database

variable {ε : Type}

def ask : Prog ε Database Answer := fun db =>
  match db.answers with
  | [] => (.ok (.failed false ⟨0, 0⟩), db)
  | a :: answers => (.ok a, { db with answers })

def change (c : Change) : Prog ε Database Unit :=
  Prog.modify fun db =>
    { db with tables := c.apply db.tables, events := .changed db.tables c :: db.events }

/-- Whether the open transaction, if there is one, has the lock of the table. A lock that is held
in a weaker mode is given up first. -/
def acquireTransactionLock (name : String) (mode : TableLockMode) : Prog ε Database Bool := do
  let db ← Prog.get
  if ¬ db.inTransaction then
    pure true
  else if db.transactionAborted then
    pure false
  else
    match db.activeTableLocks name with
    | some held =>
      if held = .exclusive ∨ mode = .shared then
        pure true
      else
        Prog.modify fun db =>
          { db with activeTableLocks := Function.update db.activeTableLocks name none }
        obtain
    | none => obtain
where
  obtain : Prog ε Database Bool := do
    match ← ask with
    | .done _ =>
      Prog.modify fun db =>
        { db with activeTableLocks := Function.update db.activeTableLocks name (some mode) }
      pure true
    | .failed .. => pure false

/-- `abort_statement`, after a write has failed. Outside a transaction it takes back what was
written. -/
def abortStatement : Prog ε Database Unit :=
  Prog.modify fun db =>
    { db with
      transactionAborted := db.transactionAborted || db.inTransaction
      events := .writeFailed :: db.events }

/-- A write that failed; in a transaction the change may stay. -/
def writeFails (stays : Bool) (c : Change) : Prog ε Database Unit := do
  let db ← Prog.get
  if db.inTransaction && stays then change c
  abortStatement

def tableExists (name : String) : Prog ε Database Bool := do
  if ¬ (← acquireTransactionLock name .shared) then
    pure false
  else
    pure ((← Prog.get).tables name).isSome

def loadSchema (name : String) : Prog ε Database (Option Schema) := do
  if ¬ (← acquireTransactionLock name .shared) then
    pure none
  else
    pure (((← Prog.get).tables name).map StoredTable.schema)

def createTable (schema : Schema) : Prog ε Database Bool := do
  if ¬ (← acquireTransactionLock schema.tableName .exclusive) then
    pure false
  else
    match ← ask with
    | .failed stays _ =>
      writeFails stays (.create schema)
      pure false
    | .done _ =>
      if ((← Prog.get).tables schema.tableName).isSome then
        -- undoing the logged creation removes the table that is there
        if ¬ (← Prog.get).inTransaction then change (.drop schema.tableName)
        abortStatement
        pure false
      else
        change (.create schema)
        pure true

def dropTable (name : String) : Prog ε Database Bool := do
  if ¬ (← acquireTransactionLock name .exclusive) then
    pure false
  else if ((← Prog.get).tables name).isNone then
    pure false
  else
    match ← ask with
    | .failed stays _ =>
      writeFails stays (.drop name)
      pure false
    | .done _ =>
      change (.drop name)
      pure true

/-- Insert a row where the table file has room for it. -/
def insertRow (name : String) (values : List Value) : Prog ε Database (Option RecordId) := do
  if ¬ (← acquireTransactionLock name .exclusive) then
    pure none
  else
    match (← Prog.get).tables name with
    | none => pure none
    | some table =>
      if ¬ table.schema.accepts values then
        pure none
      else
        match ← ask with
        | .done id =>
          if (table.find id).isSome then
            pure none
          else
            change (.insert name id values)
            pure (some id)
        | .failed stays id =>
          if table.schema.storageMode = .disk then
            writeFails (stays && (table.find id).isNone) (.insert name id values)
          pure none

def deleteRow (name : String) (id : RecordId) : Prog ε Database Bool := do
  if ¬ (← acquireTransactionLock name .exclusive) then
    pure false
  else
    match (← Prog.get).tables name with
    | none => pure false
    | some table =>
      match table.schema.storageMode with
      | .memory =>
        if (table.find id).isNone then
          pure false
        else
          change (.delete name id)
          pure true
      | .disk =>
        if (table.find id).isNone then
          abortStatement
          pure false
        else
          match ← ask with
          | .done _ =>
            change (.delete name id)
            pure true
          | .failed stays _ =>
            writeFails stays (.delete name id)
            pure false

/-- Replace a row. A row that does not change stays where it is. -/
def updateRow (name : String) (id : RecordId) (values : List Value) : Prog ε Database Bool := do
  if ¬ (← acquireTransactionLock name .exclusive) then
    pure false
  else
    match (← Prog.get).tables name with
    | none => pure false
    | some table =>
      if ¬ table.schema.accepts values then
        pure false
      else
        match table.find id with
        | none =>
          if table.schema.storageMode = .disk then abortStatement
          pure false
        | some old =>
          match ← ask with
          | .done newId =>
            let newId := newPlace table old values newId
            change (.update name id newId values)
            pure true
          | .failed stays newId =>
            if table.schema.storageMode = .disk then
              writeFails stays (.update name id (newPlace table old values newId) values)
            pure false
where
  /-- Where the row goes: it moves only when it changes, and to a free place. -/
  newPlace (table : StoredTable) (old : TableRow) (values : List Value) (newId : RecordId) :
      RecordId :=
    if table.stored values = old.values ∨ table.schema.storageMode = .memory ∨
        (table.find newId).isSome then old.recordId
    else newId

/-- Write a new schema for a table. -/
def replaceSchema (name : String) (parts : SchemaParts) : Prog ε Database Bool := do
  match Schema.make parts with
  | .error _ => pure false
  | .ok schema =>
    match ← ask with
    | .failed stays _ =>
      writeFails stays (.alter name schema)
      pure false
    | .done _ =>
      change (.alter name schema)
      pure true

/-- The first id above all ids in use. -/
def nextId (ids : List Nat) : Nat := ids.foldl (fun next id => if next ≤ id then id + 1 else next) 1

def addConstraint (name : String) (c : ConstraintDefinition) : Prog ε Database Bool := do
  if ¬ (← acquireTransactionLock name .exclusive) then
    pure false
  else
    match (← Prog.get).tables name with
    | none => pure false
    | some table =>
      let parts := table.schema.toSchemaParts
      let id := nextId (parts.constraints.map (·.id))
      replaceSchema name { parts with constraints := parts.constraints ++ [{ c with id }] }

def dropConstraint (name : String) (id : Nat) : Prog ε Database Bool := do
  if ¬ (← acquireTransactionLock name .exclusive) then
    pure false
  else
    match (← Prog.get).tables name with
    | none => pure false
    | some table =>
      let parts := table.schema.toSchemaParts
      if parts.constraints.all fun c => c.id ≠ id then
        pure false
      else
        replaceSchema name
          { parts with constraints := parts.constraints.filter fun c => c.id ≠ id }

def createIndex (name indexName columnName : String) (unique : Bool) : Prog ε Database Bool := do
  if ¬ (← acquireTransactionLock name .exclusive) then
    pure false
  else
    match (← Prog.get).tables name with
    | none => pure false
    | some table =>
      let parts := table.schema.toSchemaParts
      if (parts.columnIndex columnName).isNone ||
          parts.indexes.any fun i => i.name = indexName || i.columns = [columnName] then
        pure false
      else
        let id := nextId (parts.indexes.map (·.id))
        replaceSchema name
          { parts with
            indexes := parts.indexes ++ [{ id, name := indexName, columns := [columnName], unique }] }

def dropIndex (name indexName : String) : Prog ε Database Bool := do
  if ¬ (← acquireTransactionLock name .exclusive) then
    pure false
  else
    match (← Prog.get).tables name with
    | none => pure false
    | some table =>
      let parts := table.schema.toSchemaParts
      if parts.indexes.all fun i => i.name ≠ indexName then
        pure false
      else
        replaceSchema name
          { parts with indexes := parts.indexes.filter fun i => i.name ≠ indexName }

/-! ## Scans -/

section Scan

variable {α : Type} (body : α → TableRow → Prog ε Database (Bool × α))

/-- Call `body` for each row of a list, until it returns false. -/
def scanList : α → List TableRow → Prog ε Database (Bool × α)
  | a, [] => pure (true, a)
  | a, r :: rs => do
    let (go, a) ← body a r
    if go then scanList a rs else pure (false, a)

/-- Each page is read when the scan comes to it. -/
def scanPages (name : String) : α → List Nat → Prog ε Database (Bool × α)
  | a, [] => pure (true, a)
  | a, p :: ps => do
    let rows := match (← Prog.get).tables name with
      | some table => table.rows.filter fun r => r.recordId.pageId = p
      | none => []
    let (go, a) ← scanList body a rows
    if go then scanPages name a ps else pure (false, a)

/-- `scan_rows`, with what the callback accumulates. A disk table is read page by page, up to the
last page it had at the start; a memory table is copied first. -/
def scanRows (name : String) (a : α) : Prog ε Database (Bool × α) := do
  if ¬ (← acquireTransactionLock name .shared) then
    pure (false, a)
  else
    match (← Prog.get).tables name with
    | none => pure (false, a)
    | some table =>
      match table.schema.storageMode with
      | .memory => scanList body a table.rows
      | .disk => scanPages body name a (List.range table.pageCount)

/-! A scan moves the state along the relations that its callback moves it along. -/

variable {body} {R : Database → Database → Prop} (hrefl : ∀ s, R s s)
  (htrans : ∀ a b c, R a b → R b c → R a c)
include hrefl htrans

theorem keeps_scanList (h : ∀ a r, Prog.Keeps R (body a r)) (a : α) (rows : List TableRow) :
    Prog.Keeps R (scanList body a rows) := by
  induction rows generalizing a with
  | nil => exact Prog.keeps_pure hrefl _
  | cons r rs ih =>
    refine Prog.keeps_bind htrans (h a r) fun (go, a) => ?_
    cases go with
    | true => exact ih a
    | false => exact Prog.keeps_pure hrefl _

theorem keeps_scanPages (h : ∀ a r, Prog.Keeps R (body a r)) (name : String) (a : α)
    (pages : List Nat) : Prog.Keeps R (scanPages body name a pages) := by
  induction pages generalizing a with
  | nil => exact Prog.keeps_pure hrefl _
  | cons p ps ih =>
    refine Prog.keeps_bind htrans (Prog.keeps_get hrefl) fun db => ?_
    refine Prog.keeps_bind htrans (keeps_scanList hrefl htrans h a _) fun (go, a) => ?_
    cases go with
    | true => exact ih a
    | false => exact Prog.keeps_pure hrefl _

theorem keeps_scanRows {name : String}
    (hlock : Prog.Keeps R (acquireTransactionLock name .shared : Prog ε Database Bool))
    (h : ∀ a r, Prog.Keeps R (body a r)) (a : α) : Prog.Keeps R (scanRows body name a) := by
  refine Prog.keeps_bind htrans hlock fun locked => ?_
  cases locked with
  | false => exact Prog.keeps_pure hrefl _
  | true =>
    refine Prog.keeps_bind htrans (Prog.keeps_get hrefl) fun db => ?_
    cases db.tables name with
    | none => exact Prog.keeps_pure hrefl _
    | some table =>
      dsimp only
      split
      · exact keeps_scanList hrefl htrans h a _
      · exact keeps_scanPages hrefl htrans h name a _

end Scan

/-! ## Transactions -/

def beginTransaction : Prog ε Database Bool := do
  if (← Prog.get).inTransaction then
    pure false
  else
    match ← ask with
    | .failed .. => pure false
    | .done _ =>
      Prog.modify fun db => { db with inTransaction := true, transactionAborted := false }
      pure true

def commitTransaction : Prog ε Database Bool := do
  let db ← Prog.get
  if ¬ db.inTransaction then
    pure false
  else if db.transactionAborted then
    pure false
  else
    match ← ask with
    | .failed .. => pure false
    | .done _ =>
      Prog.modify fun db =>
        { db with
          inTransaction := false
          transactionAborted := false
          activeTableLocks := fun _ => none }
      pure true

end Database

end ScratchDb
