import ScratchDb.Query.Autocommit

/-!
# Writes outside a transaction

What each operation that writes does outside a transaction: nothing to the
tables, or one change.
-/

namespace ScratchDb

open Database

variable {ε α : Type}

/-! ## Finding rows -/

/-- Rows in order are told by their members. -/
theorem InOrder.eq_of_mem_iff {rows rows' : List TableRow} (h : InOrder rows) (h' : InOrder rows')
    (hmem : ∀ r, r ∈ rows ↔ r ∈ rows') : rows = rows' := by
  have hnodup : ∀ {l : List TableRow}, InOrder l → l.Nodup := fun hl =>
    hl.imp fun hab heq => RecordId.ne_of_precedes hab (congrArg TableRow.recordId heq)
  refine List.Perm.eq_of_pairwise (fun a b _ _ hab hba => ?_) h h'
    ((List.perm_ext_iff_of_nodup (hnodup h) (hnodup h')).mpr hmem)
  exact absurd rfl (RecordId.ne_of_precedes (RecordId.precedes_trans hab hba))

namespace StoredTable

theorem find_eq_some {t : StoredTable} {id : RecordId} {r : TableRow} (h : t.find id = some r) :
    r ∈ t.rows ∧ r.recordId = id :=
  ⟨List.mem_of_find?_eq_some h, by simpa using List.find?_some h⟩

theorem find_eq_none {t : StoredTable} {id : RecordId} (h : t.find id = none) :
    ∀ r ∈ t.rows, r.recordId ≠ id := by
  simpa [find] using h

theorem nodup_recordIds (t : StoredTable) : (t.rows.map (·.recordId)).Nodup :=
  List.pairwise_map.mpr (t.inOrder.imp RecordId.ne_of_precedes)

/-- There is one row in a place. -/
theorem eq_of_recordId {t : StoredTable} {r x : TableRow} (hr : r ∈ t.rows) (hx : x ∈ t.rows)
    (h : r.recordId = x.recordId) : r = x :=
  List.inj_on_of_nodup_map t.nodup_recordIds hr hx h

theorem find_of_mem {t : StoredTable} {r : TableRow} (hr : r ∈ t.rows) :
    t.find r.recordId = some r := by
  cases h : t.find r.recordId with
  | none => exact absurd rfl (find_eq_none h r hr)
  | some x =>
    obtain ⟨hx, hid⟩ := find_eq_some h
    rw [eq_of_recordId hx hr hid]

theorem remove_rows (t : StoredTable) (id : RecordId) :
    (t.remove id).rows = t.rows.filter fun r => r.recordId ≠ id := rfl

theorem insert_rows (t : StoredTable) (id : RecordId) (values : List Value) :
    (t.insert id values).rows = insertRowSorted ⟨id, t.stored values⟩ (t.remove id).rows := rfl

@[simp] theorem mem_remove {t : StoredTable} {id : RecordId} {r : TableRow} :
    r ∈ (t.remove id).rows ↔ r ∈ t.rows ∧ r.recordId ≠ id := by
  simp [remove_rows]

@[simp] theorem mem_insert {t : StoredTable} {id : RecordId} {values : List Value} {r : TableRow} :
    r ∈ (t.insert id values).rows ↔
      r = ⟨id, t.stored values⟩ ∨ r ∈ t.rows ∧ r.recordId ≠ id := by
  rw [insert_rows, mem_insertRowSorted, mem_remove]

@[simp] theorem insert_schema (t : StoredTable) (id : RecordId) (values : List Value) :
    (t.insert id values).schema = t.schema := rfl

@[simp] theorem remove_schema (t : StoredTable) (id : RecordId) :
    (t.remove id).schema = t.schema := rfl

theorem stored_congr {t u : StoredTable} (h : u.schema = t.schema) (values : List Value) :
    u.stored values = t.stored values := by
  rw [stored, stored, h]

@[simp] theorem stored_stored (t : StoredTable) (values : List Value) :
    t.stored (t.stored values) = t.stored values := by
  unfold stored
  cases t.schema.storageMode <;> simp

/-- A row that is given the values it has, in its place, leaves the table as it is. -/
theorem insert_remove_self {t : StoredTable} {id : RecordId} {old : TableRow} {values : List Value}
    (hfind : t.find id = some old) (hsame : t.stored values = old.values) :
    (t.remove id).insert id values = t := by
  obtain ⟨hold, rfl⟩ := find_eq_some hfind
  have hstored : (t.remove old.recordId).stored values = old.values := hsame
  refine StoredTable.ext rfl ?_ ?_
  · exact max_eq_left (t.inPages old hold)
  · refine InOrder.eq_of_mem_iff (inOrder _) t.inOrder fun r => ?_
    rw [mem_insert, mem_remove, hstored]
    constructor
    · rintro (rfl | ⟨⟨hr, -⟩, -⟩)
      · exact hold
      · exact hr
    · intro hr
      by_cases hid : r.recordId = old.recordId
      · exact .inl (eq_of_recordId hr hold hid)
      · exact .inr ⟨⟨hr, hid⟩, hid⟩

end StoredTable

/-! ## What an operation did -/

namespace Database

/-- The changes of the run, each with the tables before it, the last first. -/
def changes (db : Database) : List (Tables × Change) :=
  db.events.filterMap fun
    | .changed before c => some (before, c)
    | .writeFailed => none

/-- Outside a transaction, an operation has led from `db` to `t` with the changes `cs`. -/
structure Wrote (db t : Database) (c : Option Change) : Prop where
  outside : t.inTransaction = false
  tables : t.tables = c.elim db.tables (Change.apply db.tables)
  changes : t.changes = c.toList.map (db.tables, ·) ++ db.changes

/-- What the surroundings are asked next. -/
def next (answers : List Answer) : Answer := answers.headD (.failed false ⟨0, 0⟩)

variable {db : Database}

theorem ask_apply (db : Database) :
    (ask : Prog ε Database Answer) db =
      (.ok (next db.answers), { db with answers := db.answers.tail }) := by
  obtain ⟨_, _, _, _, answers, _⟩ := db
  cases answers <;> rfl

theorem wrote_none (hout : db.inTransaction = false) (answers : List Answer) :
    Wrote db { db with answers } none :=
  ⟨hout, rfl, rfl⟩

theorem wrote_abortStatement (hout : db.inTransaction = false) (answers : List Answer) :
    Wrote db
      { db with
        transactionAborted := db.transactionAborted || db.inTransaction
        answers
        events := .writeFailed :: db.events } none :=
  ⟨hout, rfl, rfl⟩

theorem wrote_change (hout : db.inTransaction = false) (answers : List Answer) (c : Change) :
    Wrote db
      { db with
        tables := c.apply db.tables
        answers
        events := .changed db.tables c :: db.events } (some c) :=
  ⟨hout, rfl, rfl⟩

theorem writeFails_outside (hout : db.inTransaction = false) (stays : Bool) (c : Change) :
    (writeFails stays c : Prog ε Database Unit) db = abortStatement db := by
  simp [writeFails, Prog.bind_apply, hout]

/-! ## The operations on rows -/

/-- The place that an insertion takes, with these answers. -/
def insertPlace (table : StoredTable) (values : List Value) (answers : List Answer) :
    Option RecordId :=
  if table.schema.accepts values then
    match next answers with
    | .done id => if (table.find id).isSome then none else some id
    | .failed .. => none
  else none

theorem accepts_of_insertPlace {table : StoredTable} {values : List Value} {answers : List Answer}
    {id : RecordId} (h : insertPlace table values answers = some id) :
    table.schema.accepts values = true := by
  rw [insertPlace] at h
  split at h
  · assumption
  · cases h

theorem insertPlace_eq_some {table : StoredTable} {values : List Value} {answers : List Answer}
    {id : RecordId} (h : insertPlace table values answers = some id) : table.find id = none := by
  simp only [insertPlace] at h
  split at h
  · split at h
    · split at h
      · cases h
      · cases h
        simp_all
    · cases h
  · cases h

theorem insertRow_outside (hout : db.inTransaction = false) (name : String)
    (values : List Value) : ∃ t,
      (insertRow name values : Prog ε Database (Option RecordId)) db =
        (.ok ((db.tables name).bind fun table => insertPlace table values db.answers), t) ∧
      Wrote db t (((db.tables name).bind fun table => insertPlace table values db.answers).map
        fun id => .insert name id values) := by
  rw [insertRow, Prog.bind_ok (acquireTransactionLock_outside hout name .exclusive)]
  simp only [not_true_eq_false, if_false]
  rw [Prog.bind_ok (Prog.get_apply db)]
  cases htable : db.tables name with
  | none => exact ⟨db, rfl, wrote_none hout db.answers⟩
  | some table =>
    simp only [Option.bind_some, insertPlace]
    cases haccepts : table.schema.accepts values with
    | false => exact ⟨db, rfl, wrote_none hout db.answers⟩
    | true =>
      simp only [not_true_eq_false, if_false, if_true]
      rw [Prog.bind_ok (ask_apply db)]
      cases next db.answers with
      | done id =>
        cases hfind : (table.find id).isSome with
        | true =>
          simp only [hfind, if_true]
          exact ⟨_, rfl, wrote_none hout _⟩
        | false =>
          simp only [hfind, Bool.false_eq_true, if_false]
          exact ⟨_, rfl, wrote_change hout _ _⟩
      | failed stays id =>
        dsimp only
        split
        · rw [Prog.bind_apply, writeFails_outside (by exact hout)]
          exact ⟨_, rfl, wrote_abortStatement hout _⟩
        · exact ⟨_, rfl, wrote_none hout _⟩

/-- Whether a deletion removes a row, with these answers. -/
def deletes (table : StoredTable) (id : RecordId) (answers : List Answer) : Bool :=
  (table.find id).isSome &&
    match table.schema.storageMode, next answers with
    | .memory, _ => true
    | .disk, .done _ => true
    | .disk, .failed .. => false

/-- The answers that are left after an operation on a row that is there. -/
def answersLeft (table : StoredTable) (answers : List Answer) : List Answer :=
  match table.schema.storageMode with
  | .memory => answers
  | .disk => answers.tail

theorem deleteRow_outside (hout : db.inTransaction = false) (name : String) (id : RecordId) :
    ∃ t, (deleteRow name id : Prog ε Database Bool) db =
        (.ok ((db.tables name).any fun table => deletes table id db.answers), t) ∧
      Wrote db t (if (db.tables name).any fun table => deletes table id db.answers then
        some (.delete name id) else none) ∧
      ∀ table, db.tables name = some table → (table.find id).isSome →
        t.answers = answersLeft table db.answers := by
  rw [deleteRow, Prog.bind_ok (acquireTransactionLock_outside hout name .exclusive)]
  simp only [not_true_eq_false, if_false]
  rw [Prog.bind_ok (Prog.get_apply db)]
  cases htable : db.tables name with
  | none => exact ⟨db, rfl, wrote_none hout db.answers, by simp⟩
  | some table =>
    simp only [Option.any_some, deletes, Option.some.injEq, forall_eq', answersLeft]
    rcases Option.eq_none_or_eq_some (table.find id) with hfind | ⟨r, hfind⟩ <;>
      rcases table.schema.memory_or_disk with hmode | hmode <;> simp only [hmode, hfind]
    · exact ⟨db, rfl, wrote_none hout db.answers, by simp⟩
    · exact ⟨_, rfl, wrote_abortStatement hout db.answers, by simp⟩
    · exact ⟨_, rfl, wrote_change hout db.answers _, fun _ => rfl⟩
    · simp only [Option.isNone_some, Bool.false_eq_true, if_false]
      rw [Prog.bind_ok (ask_apply db)]
      cases next db.answers with
      | done _ => exact ⟨_, rfl, wrote_change hout _ _, fun _ => rfl⟩
      | failed stays id' =>
        dsimp only
        rw [Prog.bind_apply, writeFails_outside (by exact hout)]
        exact ⟨_, rfl, wrote_abortStatement hout _, fun _ => rfl⟩

/-- The place in which an update leaves a row, with these answers. -/
def updatePlace (table : StoredTable) (id : RecordId) (values : List Value)
    (answers : List Answer) : Option RecordId :=
  if table.schema.accepts values then
    (table.find id).bind fun old =>
      match next answers with
      | .done newId => some (updateRow.newPlace table old values newId)
      | .failed .. => none
  else none

theorem accepts_of_updatePlace {table : StoredTable} {id newId : RecordId} {values : List Value}
    {answers : List Answer} (h : updatePlace table id values answers = some newId) :
    table.schema.accepts values = true := by
  rw [updatePlace] at h
  split at h
  · assumption
  · cases h

theorem updateRow_outside (hout : db.inTransaction = false) (name : String) (id : RecordId)
    (values : List Value) : ∃ t,
      (updateRow name id values : Prog ε Database Bool) db =
        (.ok ((db.tables name).bind fun table =>
          updatePlace table id values db.answers).isSome, t) ∧
      Wrote db t (((db.tables name).bind fun table => updatePlace table id values db.answers).map
        fun newId => .update name id newId values) ∧
      ∀ table, db.tables name = some table → (table.find id).isSome →
        t.answers = if table.schema.accepts values then db.answers.tail else db.answers := by
  rw [updateRow, Prog.bind_ok (acquireTransactionLock_outside hout name .exclusive)]
  simp only [not_true_eq_false, if_false]
  rw [Prog.bind_ok (Prog.get_apply db)]
  cases htable : db.tables name with
  | none => exact ⟨db, rfl, wrote_none hout db.answers, by simp⟩
  | some table =>
    simp only [Option.bind_some, updatePlace, Option.some.injEq, forall_eq']
    cases haccepts : table.schema.accepts values with
    | false => exact ⟨db, rfl, wrote_none hout db.answers, fun _ => rfl⟩
    | true =>
      rcases Option.eq_none_or_eq_some (table.find id) with hfind | ⟨old, hfind⟩ <;>
        rcases table.schema.memory_or_disk with hmode | hmode <;>
          simp only [hmode, hfind, not_true_eq_false, if_false, if_true, Option.bind_some]
      · exact ⟨db, rfl, wrote_none hout db.answers, by simp⟩
      · exact ⟨_, rfl, wrote_abortStatement hout db.answers, by simp⟩
      · rw [Prog.bind_ok (ask_apply db)]
        cases next db.answers with
        | done newId => exact ⟨_, rfl, wrote_change hout _ _, fun _ => rfl⟩
        | failed stays newId => exact ⟨_, rfl, wrote_none hout _, fun _ => rfl⟩
      · rw [Prog.bind_ok (ask_apply db)]
        cases next db.answers with
        | done newId => exact ⟨_, rfl, wrote_change hout _ _, fun _ => rfl⟩
        | failed stays newId =>
          dsimp only
          rw [Prog.bind_apply, writeFails_outside (by exact hout)]
          exact ⟨_, rfl, wrote_abortStatement hout _, fun _ => rfl⟩

/-! ## The operations on tables -/

theorem createTable_outside (hout : db.inTransaction = false) {schema : Schema}
    (hnone : db.tables schema.tableName = none) : ∃ b t,
      (createTable schema : Prog ε Database Bool) db = (.ok b, t) ∧
      Wrote db t (if b then some (.create schema) else none) := by
  rw [createTable, Prog.bind_ok (acquireTransactionLock_outside hout schema.tableName .exclusive)]
  simp only [not_true_eq_false, if_false]
  rw [Prog.bind_ok (ask_apply db)]
  cases next db.answers with
  | failed stays id =>
    dsimp only
    rw [Prog.bind_apply, writeFails_outside (by exact hout)]
    exact ⟨false, _, rfl, wrote_abortStatement hout _⟩
  | done id =>
    dsimp only
    rw [Prog.bind_ok (Prog.get_apply _), hnone]
    exact ⟨true, _, rfl, wrote_change hout _ _⟩

theorem dropTable_outside (hout : db.inTransaction = false) (name : String) : ∃ b t,
    (dropTable name : Prog ε Database Bool) db = (.ok b, t) ∧
      Wrote db t (if b then some (.drop name) else none) := by
  rw [dropTable, Prog.bind_ok (acquireTransactionLock_outside hout name .exclusive)]
  simp only [not_true_eq_false, if_false]
  rw [Prog.bind_ok (Prog.get_apply _)]
  cases htable : db.tables name with
  | none => exact ⟨false, db, rfl, wrote_none hout db.answers⟩
  | some table =>
    simp only [Option.isNone_some, Bool.false_eq_true, if_false]
    rw [Prog.bind_ok (ask_apply db)]
    cases next db.answers with
    | failed stays id =>
      dsimp only
      rw [Prog.bind_apply, writeFails_outside (by exact hout)]
      exact ⟨false, _, rfl, wrote_abortStatement hout _⟩
    | done id => exact ⟨true, _, rfl, wrote_change hout _ _⟩

theorem replaceSchema_outside (hout : db.inTransaction = false) (name : String)
    (parts : SchemaParts) : ∃ b t,
      (replaceSchema name parts : Prog ε Database Bool) db = (.ok b, t) ∧
      (Wrote db t none ∨
        ∃ schema, Schema.make parts = .ok schema ∧ Wrote db t (some (.alter name schema))) := by
  unfold replaceSchema
  cases Schema.make parts with
  | error e => exact ⟨false, db, rfl, .inl (wrote_none hout db.answers)⟩
  | ok schema =>
    dsimp only
    rw [Prog.bind_ok (ask_apply db)]
    cases next db.answers with
    | failed stays id =>
      dsimp only
      rw [Prog.bind_apply, writeFails_outside (by exact hout)]
      exact ⟨false, _, rfl, .inl (wrote_abortStatement hout _)⟩
    | done id => exact ⟨true, _, rfl, .inr ⟨schema, rfl, wrote_change hout _ _⟩⟩

end Database

end ScratchDb
