import ScratchDb.Lib.Machine
import ScratchDb.Query.Writes

/-!
# Key constraints under concurrency

Executors that run `INSERT` and `UPDATE` statements on one table, each outside
a transaction. A statement takes the rows it writes one at a time: it checks
the constraints of the schema one after the other, each key by a scan of the
table, and then inserts or updates the row. Each of these is one step, and the
steps of the executors interleave in any order. Which row a statement takes
next, and with which values, is left open.
-/

namespace ScratchDb

open Database

/-! ## Keys -/

def ConstraintDefinition.isKey (c : ConstraintDefinition) : Bool :=
  c.kind = .primaryKey || c.kind = .unique

/-- Two rows have the same values in some columns. -/
def Agree (schema : Schema) (columns : List String) (x y : List Value) : Prop :=
  ∀ column ∈ columns, rowValueForColumn schema x column = rowValueForColumn schema y column

/-- No two rows agree on a key of their schema. -/
def KeysHold (schema : Schema) (rows : List TableRow) : Prop :=
  ∀ c ∈ schema.constraints, c.isKey = true → ∀ x ∈ rows, ∀ y ∈ rows,
    x ≠ y → ¬ Agree schema c.columns x.values y.values

/-! ## The executors -/

/-- Where an executor is: between two rows, or with the values of a row, the row that they replace,
and the constraints that are still to be checked. Not in the source: the constraints it has checked,
with the rows that were in the table then. -/
inductive Task where
  | idle
  | checking (ignore : Option RecordId) (values : List Value) (todo : List ConstraintDefinition)
      (checked : List (ConstraintDefinition × List TableRow))

structure KeyState where
  tables : Tables
  tasks : Nat → Task

namespace KeyState

/-- A step of an executor. Whether a row passes a constraint that is no key is left open. -/
inductive Action where
  | start (executor : Nat) (ignore : Option RecordId) (values : List Value)
  | check (executor : Nat) (passes : Bool)
  | write (executor : Nat) (answer : Answer)

variable (name : String) (schema : Schema)

def rows (s : KeyState) : List TableRow := ((s.tables name).map StoredTable.rows).getD []

/-- The check of one constraint, at the tables of this moment. -/
def passes (s : KeyState) (ignore : Option RecordId) (values : List Value)
    (c : ConstraintDefinition) (otherwise : Bool) : Bool :=
  if c.isKey then
    match (rowSatisfiesKey name schema values ignore c (autocommit s.tables [])).1 with
    | .ok _ => true
    | .error _ => false
  else otherwise

/-- The write of a row, outside a transaction. -/
def writeRow (s : KeyState) (ignore : Option RecordId) (values : List Value) (answer : Answer) :
    Tables :=
  match ignore with
  | none =>
    ((insertRow name values : Prog Unit Database _) (autocommit s.tables [answer])).2.tables
  | some id =>
    ((updateRow name id values : Prog Unit Database _) (autocommit s.tables [answer])).2.tables

def next (s : KeyState) : Action → Option KeyState
  | .start executor ignore values =>
    match s.tasks executor with
    | .idle =>
      some { s with
        tasks := Function.update s.tasks executor (.checking ignore values schema.constraints []) }
    | .checking .. => none
  | .check executor otherwise =>
    match s.tasks executor with
    | .checking ignore values (c :: todo) checked =>
      some { s with
        tasks := Function.update s.tasks executor
          (if s.passes name schema ignore values c otherwise then
            .checking ignore values todo ((c, s.rows name) :: checked)
          else .idle) }
    | _ => none
  | .write executor answer =>
    match s.tasks executor with
    | .checking ignore values [] _ =>
      some
        { tables := s.writeRow name ignore values answer
          tasks := Function.update s.tasks executor .idle }
    | _ => none

end KeyState

/-- The executors on a table, from a table of which the keys hold. -/
def keyMachine (name : String) (table : StoredTable) : Machine KeyState KeyState.Action where
  init := { tables := Function.update (fun _ => none) name (some table), tasks := fun _ => .idle }
  next s a := s.next name table.schema a

/-- No row that has come into the table since an executor has scanned it for a key agrees on that
key with the row that the executor now writes, and the values of the key are read as they are
written. A string of a disk table that ends in a zero byte is not. -/
def Undisturbed (name : String) (s : KeyState) : KeyState.Action → Prop
  | .write executor _ =>
    match s.tasks executor with
    | .checking ignore values [] checked =>
      ∀ table, s.tables name = some table → ∀ c seen, (c, seen) ∈ checked → c.isKey = true →
        Agree table.schema c.columns (table.stored values) values ∧
          ∀ row ∈ table.rows, row ∉ seen → ignore ≠ some row.recordId →
            ¬ Agree table.schema c.columns row.values values
    | _ => True
  | _ => True

/-! ## What a scan for a key establishes -/

variable {name : String} {schema : Schema}

theorem exists_rowValueForColumn {c : ConstraintDefinition} (hc : c ∈ schema.constraints)
    (hkey : c.isKey = true) {values : List Value} (haccepts : schema.accepts values = true) :
    ∀ column ∈ c.columns, ∃ v, rowValueForColumn schema values column = some v := by
  intro column hcolumn
  have hvalid := (schema.constraintsValid.1 c hc).2
  have hindex : (schema.columnIndex column).isSome = true := by
    rw [ConstraintDefinition.isKey, Bool.or_eq_true, decide_eq_true_iff, decide_eq_true_iff] at hkey
    rcases hkey with hkind | hkind <;> rw [hkind] at hvalid <;> exact hvalid.2 column hcolumn
  obtain ⟨i, hi⟩ := Option.isSome_iff_exists.mp hindex
  have hlt : i < schema.columns.length := (List.findIdx?_eq_some_iff_findIdx_eq.mp hi).1
  rw [SchemaParts.accepts, Bool.and_eq_true, decide_eq_true_iff] at haccepts
  have hlt' : i < values.length := by omega
  exact ⟨values[i], by rw [rowValueForColumn, hi, Option.bind_some, List.getElem?_eq_getElem hlt']⟩

/-- Rows with the same values in the columns of a key agree on it for the scan. -/
theorem agreeOn_of_agree {columns : List String} {x y : List Value}
    (hvalues : ∀ column ∈ columns, ∃ v, rowValueForColumn schema y column = some v)
    (h : Agree schema columns x y) : agreeOn schema columns x y = true := by
  rw [agreeOn, List.all_eq_true]
  intro column hcolumn
  obtain ⟨v, hv⟩ := hvalues column hcolumn
  simp [h column hcolumn, hv]

/-- After a scan for a key that has found nothing, no other row agrees. -/
theorem agreeOn_eq_false_of_passes {s : KeyState} {ignore : Option RecordId} {values : List Value}
    {c : ConstraintDefinition} {otherwise : Bool} (hkey : c.isKey = true)
    (h : s.passes name schema ignore values c otherwise = true) :
    ∀ row ∈ s.rows name, ignore ≠ some row.recordId →
      agreeOn schema c.columns row.values values = false := by
  intro row hrow hignore
  rw [KeyState.passes, if_pos hkey, rowSatisfiesKey] at h
  dsimp only at h
  split at h
  case h_2 => cases h
  case h_1 hok =>
    cases htable : s.tables name with
    | none => simp [KeyState.rows, htable] at hrow
    | some table =>
      rw [KeyState.rows, htable, Option.map_some, Option.getD_some] at hrow
      split at hok
      · cases hok
      · rw [keyCallback_eq,
          Prog.bind_ok (scanRows_searchBody (breaksKey schema values ignore c) rfl htable)] at hok
        cases hany : table.rows.any (breaksKey schema values ignore c) with
        | true => simp [hany] at hok
        | false =>
          have hbreaks := List.any_eq_false.mp hany row hrow
          simpa [breaksKey, hignore] using hbreaks

/-! ## The invariant -/

/-- An executor has found no row that agrees with its row on a key it has checked. -/
def Task.Sound (schema : Schema) : Task → Prop
  | .idle => True
  | .checking ignore values todo checked =>
    (checked.reverse.map Prod.fst) ++ todo = schema.constraints ∧
      ∀ c seen, (c, seen) ∈ checked → c.isKey = true → ∀ row ∈ seen, ignore ≠ some row.recordId →
        agreeOn schema c.columns row.values values = false

structure KeyState.Inv (name : String) (schema : Schema) (s : KeyState) : Prop where
  schema_eq : ∃ table, s.tables name = some table ∧ table.schema = schema
  keysHold : KeysHold schema (s.rows name)
  sound : ∀ executor, (s.tasks executor).Sound schema

theorem sound_update {tasks : Nat → Task} {executor : Nat} {task : Task}
    (h : ∀ e, (tasks e).Sound schema) (htask : task.Sound schema) (e : Nat) :
    (Function.update tasks executor task e).Sound schema := by
  rw [Function.update_apply]
  split
  · exact htask
  · exact h e

/-- A row that agrees with no other is put into the table, in the place of a row or in a free
one. -/
theorem keysHold_insert {rows : List TableRow} {new : TableRow} {kept : TableRow → Prop}
    (h : KeysHold schema rows)
    (hnew : ∀ c ∈ schema.constraints, c.isKey = true → ∀ row ∈ rows, kept row →
      ¬ Agree schema c.columns row.values new.values)
    {rows' : List TableRow} (hrows : ∀ row ∈ rows', row = new ∨ row ∈ rows ∧ kept row) :
    KeysHold schema rows' := by
  intro c hc hkey x hx y hy hne hagree
  rcases hrows x hx with rfl | ⟨hx, hxkept⟩
  · rcases hrows y hy with rfl | ⟨hy, hykept⟩
    · exact hne rfl
    · exact hnew c hc hkey y hy hykept fun column hcolumn => (hagree column hcolumn).symm
  · rcases hrows y hy with rfl | ⟨hy, -⟩
    · exact hnew c hc hkey x hx hxkept hagree
    · exact h c hc hkey x hx y hy hne hagree

/-- What a write does: nothing, or it puts the row that was checked into the table. -/
theorem writeRow_cases {s : KeyState} {table : StoredTable} (htable : s.tables name = some table)
    (ignore : Option RecordId) (values : List Value) (answer : Answer) :
    s.writeRow name ignore values answer = s.tables ∨
      table.schema.accepts values = true ∧ ∃ table' id,
        s.writeRow name ignore values answer = Function.update s.tables name (some table') ∧
        table'.schema = table.schema ∧
        ∀ row ∈ table'.rows, row = ⟨id, table.stored values⟩ ∨
          row ∈ table.rows ∧ ignore ≠ some row.recordId := by
  have hout : (autocommit s.tables [answer]).inTransaction = false := rfl
  have htable' : (autocommit s.tables [answer]).tables name = some table := htable
  cases ignore with
  | none =>
    obtain ⟨t, happly, hw⟩ := insertRow_outside (ε := Unit) hout name values
    rw [htable', Option.bind_some] at hw
    rw [KeyState.writeRow, happly]
    cases hplace : insertPlace table values (autocommit s.tables [answer]).answers with
    | none =>
      rw [hplace] at hw
      exact .inl hw.tables
    | some id =>
      rw [hplace] at hw
      refine .inr ⟨accepts_of_insertPlace hplace, table.insert id values, id, ?_, rfl,
        fun row hrow => ?_⟩
      · simp [hw.tables, Change.apply, autocommit, htable]
      · exact (StoredTable.mem_insert.mp hrow).imp_right fun h => ⟨h.1, nofun⟩
  | some id =>
    obtain ⟨t, happly, hw, -⟩ := updateRow_outside (ε := Unit) hout name id values
    rw [htable', Option.bind_some] at hw
    rw [KeyState.writeRow, happly]
    cases hplace : updatePlace table id values (autocommit s.tables [answer]).answers with
    | none =>
      rw [hplace] at hw
      exact .inl hw.tables
    | some newId =>
      rw [hplace] at hw
      refine .inr ⟨accepts_of_updatePlace hplace, (table.remove id).insert newId values, newId, ?_,
        rfl, fun row hrow => ?_⟩
      · simp [hw.tables, Change.apply, autocommit, htable]
      · rcases StoredTable.mem_insert.mp hrow with rfl | ⟨hrow, -⟩
        · exact .inl rfl
        · obtain ⟨hrow, hid⟩ := StoredTable.mem_remove.mp hrow
          exact .inr ⟨hrow, fun h => hid (Option.some_inj.mp h).symm⟩

theorem KeyState.rows_eq {s : KeyState} {table : StoredTable} (htable : s.tables name = some table) :
    s.rows name = table.rows := by
  rw [rows, htable, Option.map_some, Option.getD_some]

/-- A row is written: it agrees with no row that was there when its keys were checked, and with none
that has come since. -/
theorem inv_write {s : KeyState} (hinv : s.Inv name schema) {executor : Nat}
    {ignore : Option RecordId} {values : List Value}
    {checked : List (ConstraintDefinition × List TableRow)}
    (htask : s.tasks executor = .checking ignore values [] checked) {answer : Answer}
    (hundisturbed : Undisturbed name s (.write executor answer)) :
    KeyState.Inv name schema
      { tables := s.writeRow name ignore values answer
        tasks := Function.update s.tasks executor .idle } := by
  obtain ⟨⟨table, htable, rfl⟩, hkeys, hsound⟩ := hinv
  have hidle : ∀ e, (Function.update s.tasks executor .idle e).Sound table.schema :=
    sound_update hsound trivial
  rcases writeRow_cases htable ignore values answer with hsame |
    ⟨haccepts, table', id, htables, hschema, hrows⟩
  · rw [hsame]
    exact ⟨⟨table, htable, rfl⟩, hkeys, hidle⟩
  · have htask' := hsound executor
    rw [htask] at htask'
    obtain ⟨hall, hfound⟩ := htask'
    rw [Undisturbed, htask] at hundisturbed
    specialize hundisturbed table htable
    rw [htables]
    refine ⟨⟨table', Function.update_self .., hschema⟩, ?_, hidle⟩
    rw [KeyState.rows_eq (Function.update_self name (some table') s.tables)]
    rw [KeyState.rows_eq htable] at hkeys
    refine keysHold_insert hkeys (fun c hc hkey row hrow hignore hagree => ?_) hrows
    -- the key has been checked, on the rows that were in the table then
    rw [List.append_nil] at hall
    obtain ⟨⟨c', seen⟩, hchecked, rfl⟩ := List.mem_map.mp (hall ▸ hc)
    rw [List.mem_reverse] at hchecked
    obtain ⟨hstored, hnew⟩ := hundisturbed c' seen hchecked hkey
    have hagree' : Agree table.schema c'.columns row.values values := fun column hcolumn =>
      (hagree column hcolumn).trans (hstored column hcolumn)
    by_cases hseen : row ∈ seen
    · have hno := hfound c' seen hchecked hkey row hseen hignore
      rw [agreeOn_of_agree (exists_rowValueForColumn hc hkey haccepts) hagree'] at hno
      cases hno
    · exact hnew row hrow hseen hignore hagree'

theorem inv_step {s t : KeyState} {a : KeyState.Action} (hinv : s.Inv name schema)
    (hundisturbed : Undisturbed name s a) (hnext : s.next name schema a = some t) :
    t.Inv name schema := by
  cases a with
  | start executor ignore values =>
    rw [KeyState.next] at hnext
    split at hnext
    · cases hnext
      exact ⟨hinv.schema_eq, hinv.keysHold, sound_update hinv.sound ⟨rfl, nofun⟩⟩
    · cases hnext
  | check executor otherwise =>
    rw [KeyState.next] at hnext
    split at hnext
    case h_2 => cases hnext
    case h_1 ignore values c todo checked htask =>
      cases hnext
      refine ⟨hinv.schema_eq, hinv.keysHold, sound_update hinv.sound ?_⟩
      have hsound := hinv.sound executor
      rw [htask] at hsound
      obtain ⟨hall, hfound⟩ := hsound
      cases hpasses : s.passes name schema ignore values c otherwise with
      | false => trivial
      | true =>
        refine ⟨by simpa using hall, fun c' seen hmem hkey => ?_⟩
        rcases List.mem_cons.mp hmem with heq | hmem
        · cases heq
          exact agreeOn_eq_false_of_passes hkey hpasses
        · exact hfound c' seen hmem hkey
  | write executor answer =>
    rw [KeyState.next] at hnext
    split at hnext
    case h_2 => cases hnext
    case h_1 ignore values checked htask =>
      cases hnext
      exact inv_write hinv htask hundisturbed

/-! ## Two insertions of the same key -/

/-- The table of numbers, with a primary key. -/
def keyedSchema : Schema where
  toSchemaParts :=
    { numbersSchema.toSchemaParts with
      constraints := [{ id := 1, kind := .primaryKey, columns := ["n"], args := [] }] }
  nameValid := by decide
  columnsValid := by decide
  constraintsValid := by decide
  indexesValid := by decide

/-- Both executors scan the empty table before either writes its row. -/
def bothScanFirst : List KeyState.Action :=
  [.start 0 none [.integer 1], .check 0 true, .start 1 none [.integer 1], .check 1 true,
    .write 0 (.done ⟨0, 0⟩), .write 1 (.done ⟨0, 1⟩)]

end ScratchDb
