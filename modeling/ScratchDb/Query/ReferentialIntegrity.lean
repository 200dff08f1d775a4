import ScratchDb.Lib.Machine
import ScratchDb.Query.Writes

/-!
# Referential integrity

Statements of one executor, outside a transaction. `INSERT`, `UPDATE` and
`ALTER TABLE` look for the row that a foreign key refers to; `DELETE`,
`UPDATE` and `DROP TABLE` do not ask who refers to the rows they take away.
So every reference finds its row in every run that takes no such row away.
-/

namespace ScratchDb

open Database

variable {ε α β : Type}

/-! ## References and what they refer to -/

/-- The table that a foreign key names has a row with the value in the column that it names. -/
def HasTarget (t : Tables) (c : ConstraintDefinition) (v : Value) : Prop :=
  ∃ refTable refName, c.args = [refTable, refName] ∧
    ∃ table, t refTable = some table ∧ ∃ i, table.schema.columnIndex refName = some i ∧
      ∃ row ∈ table.rows, row.values[i]? = some v

/-- A foreign key of a schema has a value that is not null in a row. -/
def RefersIn (schema : Schema) (values : List Value) (c : ConstraintDefinition) (v : Value) :
    Prop :=
  c ∈ schema.constraints ∧ c.kind = .foreignKey ∧ v.isNull = false ∧
    ∃ column ∈ c.columns, rowValueForColumn schema values column = some v

/-- Some live row refers to the value. -/
def Refers (t : Tables) (c : ConstraintDefinition) (v : Value) : Prop :=
  ∃ name table, t name = some table ∧ ∃ row ∈ table.rows, RefersIn table.schema row.values c v

/-- Every reference finds its row. -/
def ReferentialIntegrity (t : Tables) : Prop := ∀ c v, Refers t c v → HasTarget t c v

/-- Every value of a row is null or has the type of its column. -/
def TypedRow (schema : Schema) (values : List Value) : Prop :=
  ∀ (i : Nat) (column : Column) (v : Value), schema.columns[i]? = some column → values[i]? = some v →
    v.isNull = true ∨ v.type = column.type

def TypedRows (t : Tables) : Prop :=
  ∀ name table, t name = some table → ∀ row ∈ table.rows, TypedRow table.schema row.values

/-- What the statements keep. -/
structure Consistent (t : Tables) : Prop where
  typed : TypedRows t
  integrity : ReferentialIntegrity t

/-! ## Values of a type -/

namespace Value

theorem type_of_matchesColumn {v : Value} {c : Column} (h : v.matchesColumn c = true) :
    v.isNull = true ∨ v.type = c.type := by
  cases v <;> simp_all [matchesColumn, isNull]

@[simp] theorem padded_isNull (v : Value) : v.padded.isNull = v.isNull := by
  cases v <;> rfl

@[simp] theorem padded_type (v : Value) : v.padded.type = v.type := by
  cases v <;> rfl

/-- Only a null is equal to a null. -/
theorem isNull_of_compareValues {v w : Value} (h : compareValues v w = .eq)
    (hw : w.isNull = false) : v.isNull = false := by
  by_contra hv
  rw [Bool.not_eq_false] at hv
  simp [compareValues, hv, hw] at h

end Value

theorem TypedRow.stored {schema : Schema} {table : StoredTable} {values : List Value}
    (h : TypedRow schema values) : TypedRow schema (table.stored values) := by
  unfold StoredTable.stored
  cases table.schema.storageMode with
  | memory => exact h
  | disk =>
    intro i column v hcolumn hv
    obtain ⟨w, hw, rfl⟩ := Option.map_eq_some_iff.mp (List.getElem?_map ▸ hv)
    rw [Value.padded_isNull, Value.padded_type]
    exact h i column w hcolumn hw

theorem typedRow_of_accepts {schema : Schema} {values : List Value}
    (h : schema.accepts values = true) : TypedRow schema values := by
  rw [SchemaParts.accepts, Bool.and_eq_true, List.all_eq_true] at h
  intro i column v hcolumn hv
  refine Value.type_of_matchesColumn (h.2 (v, column) (List.mem_of_getElem? (i := i) ?_))
  rw [List.getElem?_zip_eq_some]
  exact ⟨hv, hcolumn⟩

theorem SchemaParts.findColumn_eq_some {s : SchemaParts} {name : String} {column : Column}
    (h : s.findColumn name = some column) :
    ∃ i, s.columnIndex name = some i ∧ s.columns[i]? = some column :=
  Option.bind_eq_some_iff.mp h

theorem TypedRow.type_eq {schema : Schema} {values : List Value} (h : TypedRow schema values)
    {name : String} {column : Column} {i : Nat} {v : Value}
    (hcolumn : schema.findColumn name = some column) (hi : schema.columnIndex name = some i)
    (hv : values[i]? = some v) (hnull : v.isNull = false) : v.type = column.type := by
  obtain ⟨j, hj, hcolumn⟩ := SchemaParts.findColumn_eq_some hcolumn
  obtain rfl : i = j := Option.some_inj.mp (hi.symm.trans hj)
  rcases h i column v hcolumn hv with hnull' | htype
  · rw [hnull] at hnull'
    cases hnull'
  · exact htype

/-! ## What the check of a foreign key establishes -/

theorem mem_foreignKey_valid {schema : Schema} {c : ConstraintDefinition}
    (hc : c ∈ schema.constraints) (hkind : c.kind = .foreignKey) :
    ∃ column refTable refName, c.columns = [column] ∧ c.args = [refTable, refName] := by
  have h := (schema.constraintsValid.1 c hc).2
  rw [hkind] at h
  obtain ⟨hcolumns, hargs, -⟩ := h
  obtain ⟨column, hcolumn⟩ := List.length_eq_one_iff.mp hcolumns
  obtain ⟨refTable, refName, hargs⟩ := List.length_eq_two.mp hargs
  exact ⟨column, refTable, refName, hcolumn, hargs⟩

/-- All references of a row find their rows. -/
def Satisfied (t : Tables) (schema : Schema) (values : List Value) : Prop :=
  ∀ c v, RefersIn schema values c v → HasTarget t c v

theorem eq_of_isReferenced {refIndex : Nat} {v : Value} {row : TableRow}
    (h : isReferenced refIndex v row = true) :
    ∃ w, row.values[refIndex]? = some w ∧ Value.compareValues w v = .eq := by
  rw [isReferenced] at h
  cases hw : row.values[refIndex]? with
  | none => simp [hw] at h
  | some w => exact ⟨w, rfl, by simpa [hw] using h⟩

theorem hasTarget_of_rowSatisfiesForeignKey {schema : Schema} {values : List Value}
    {c : ConstraintDefinition} {db : Database} (hout : db.inTransaction = false)
    (htyped : TypedRows db.tables) (hvalues : TypedRow schema values)
    {column refTable refName : String} (hcolumns : c.columns = [column])
    (hargs : c.args = [refTable, refName])
    (hok : (rowSatisfiesForeignKey schema values c db).1 = .ok ())
    {v : Value} (hv : rowValueForColumn schema values column = some v) (hnull : v.isNull = false) :
    HasTarget db.tables c v := by
  rw [rowSatisfiesForeignKey] at hok
  simp only [hcolumns, hargs, hv, hnull, Bool.false_eq_true, if_false] at hok
  rw [Prog.bind_ok (loadSchema_outside hout refTable)] at hok
  cases hlocal : schema.findColumn column with
  | none => simp [hlocal] at hok
  | some localColumn =>
    cases htable : db.tables refTable with
    | none => simp [hlocal, htable] at hok
    | some table =>
      simp only [hlocal, htable, Option.map_some] at hok
      cases hindex : table.schema.columnIndex refName with
      | none => simp [hindex] at hok
      | some refIndex =>
        cases hcolumn : table.schema.findColumn refName with
        | none => simp [hindex, hcolumn] at hok
        | some refColumn =>
          simp only [hindex, hcolumn] at hok
          split at hok
          · rename_i hsame
            rw [foreignKeyCallback_eq, Prog.bind_ok (scanRows_searchBody _ hout htable)] at hok
            cases hany : table.rows.any (isReferenced refIndex v) with
            | false => simp [hany] at hok
            | true =>
              obtain ⟨row, hrow, hreferenced⟩ := List.any_eq_true.mp hany
              obtain ⟨w, hw, heq⟩ := eq_of_isReferenced hreferenced
              -- both values have the type of the two columns
              obtain ⟨i, hi, hvi⟩ := Option.bind_eq_some_iff.mp hv
              have hvtype := hvalues.type_eq hlocal hi hvi hnull
              have hwtype := (htyped refTable table htable row hrow).type_eq hcolumn hindex hw
                (Value.isNull_of_compareValues heq hnull)
              have hwv : w = v :=
                Value.eq_of_compareValues (hwtype.trans (hsame.1.symm.trans hvtype.symm)) heq
              exact ⟨refTable, refName, hargs, table, htable, refIndex, hindex, row, hrow, hwv ▸ hw⟩
          · simp at hok

/-- A row that the checks accept has the rows that it refers to. -/
theorem satisfied_of_rowSatisfiesSchemaConstraints {parser : ValueParser} {command name : String}
    {schema : Schema} {values : List Value} {ignore : Option RecordId} {db : Database}
    (hout : db.inTransaction = false) (htyped : TypedRows db.tables)
    (hvalues : TypedRow schema values)
    (hok : (rowSatisfiesSchemaConstraints parser command name schema values ignore db).1 = .ok ()) :
    Satisfied db.tables schema values := by
  have hall : ∀ cs, (rowSatisfiesConstraints parser name schema values ignore cs db).1 = .ok () →
      ∀ c ∈ cs, (rowSatisfiesConstraint parser name schema values ignore c db).1 = .ok () := by
    intro cs
    induction cs with
    | nil => simp
    | cons c cs ih =>
      intro h
      have hstate := (onlyReads_rowSatisfiesConstraint parser name schema values ignore c).state_eq
        hout
      rw [rowSatisfiesConstraints, Prog.bind_apply, hstate] at h
      rcases hfirst : (rowSatisfiesConstraint parser name schema values ignore c db).1 with e | _
      · simp [hfirst] at h
      · simp only [hfirst] at h
        intro c' hc'
        rcases List.mem_cons.mp hc' with rfl | hc'
        · exact hfirst
        · exact ih h c' hc'
  have hconstraints :
      (rowSatisfiesConstraints parser name schema values ignore schema.constraints db).1 =
        .ok () := by
    rw [rowSatisfiesSchemaConstraints, withSource] at hok
    rcases hr : rowSatisfiesConstraints parser name schema values ignore schema.constraints db with
      ⟨e | _, t⟩
    · simp [hr] at hok
    · rfl
  rintro c v ⟨hc, hkind, hnull, column, hcolumn, hv⟩
  obtain ⟨column', refTable, refName, hcolumns, hargs⟩ := mem_foreignKey_valid hc hkind
  rw [hcolumns, List.mem_singleton] at hcolumn
  subst hcolumn
  have hforeign := hall schema.constraints hconstraints c hc
  simp only [rowSatisfiesConstraint, hkind] at hforeign
  exact hasTarget_of_rowSatisfiesForeignKey hout htyped hvalues hcolumns hargs hforeign hv hnull

/-! ## Changes that lose no target -/

/-- Every row that a reference has found is still found. -/
def KeepsTargets (t t' : Tables) : Prop :=
  ∀ c v, Refers t' c v → HasTarget t c v → HasTarget t' c v

/-- The values of the foreign keys are read as they are written. A string of a disk table that ends
in a zero byte is not. -/
def StoresReferences (t : Tables) (name : String) (values : List Value) : Prop :=
  ∀ table, t name = some table → ∀ c ∈ table.schema.constraints, c.kind = .foreignKey →
    ∀ column ∈ c.columns, rowValueForColumn table.schema (table.stored values) column =
      rowValueForColumn table.schema values column

/-- The change takes no row away that a reference needs, and stores references as they are. -/
def Harmless (t : Tables) (c : Change) : Prop :=
  match c with
  | .create _ => True
  | .alter _ _ => True
  | .drop _ => KeepsTargets t (c.apply t)
  | .delete _ _ => KeepsTargets t (c.apply t)
  | .insert name _ values => StoresReferences t name values
  | .update name _ _ values => StoresReferences t name values ∧ KeepsTargets t (c.apply t)

/-- What the statements have seen to before they make a change. -/
def Justified (t : Tables) : Change → Prop
  | .create schema => t schema.tableName = none
  | .drop _ => True
  | .delete _ _ => True
  | .alter name schema => ∀ table, t name = some table → schema.columns = table.schema.columns ∧
      (Consistent t → ∀ row ∈ table.rows, Satisfied t schema row.values)
  | .insert name id values => ∀ table, t name = some table → table.find id = none ∧
      TypedRow table.schema values ∧ (Consistent t → Satisfied t table.schema values)
  | .update name _ _ values => ∀ table, t name = some table →
      TypedRow table.schema values ∧ (Consistent t → Satisfied t table.schema values)

/-- There are at least the tables and rows of `t`. -/
def Extends (t t' : Tables) : Prop :=
  ∀ name table, t name = some table → ∃ table', t' name = some table' ∧
    table'.schema.columns = table.schema.columns ∧ ∀ row ∈ table.rows, row ∈ table'.rows

theorem columnIndex_congr {s s' : SchemaParts} (h : s'.columns = s.columns) (name : String) :
    s'.columnIndex name = s.columnIndex name := by
  rw [SchemaParts.columnIndex, SchemaParts.columnIndex, h]

theorem keepsTargets_of_extends {t t' : Tables} (h : Extends t t') : KeepsTargets t t' := by
  rintro c v - ⟨refTable, refName, hargs, table, htable, i, hi, row, hrow, hv⟩
  obtain ⟨table', htable', hcolumns, hrows⟩ := h refTable table htable
  exact ⟨refTable, refName, hargs, table', htable', i,
    (columnIndex_congr hcolumns refName).trans hi, row, hrows row hrow, hv⟩

section Update

variable {t : Tables} {name name' : String} {f : StoredTable → StoredTable} {table' : StoredTable}

/-- The tables after one of them has been replaced. -/
theorem eq_some_of_update_map
    (h : Function.update t name ((t name).map f) name' = some table') :
    (name' ≠ name ∧ t name' = some table') ∨
      ∃ table, name' = name ∧ t name = some table ∧ table' = f table := by
  by_cases hname : name' = name
  · rw [hname, Function.update_self, Option.map_eq_some_iff] at h
    obtain ⟨table, htable, rfl⟩ := h
    exact .inr ⟨table, hname, htable, rfl⟩
  · rw [Function.update_of_ne hname] at h
    exact .inl ⟨hname, h⟩

theorem extends_update_map
    (h : ∀ table, t name = some table → (f table).schema.columns = table.schema.columns ∧
      ∀ row ∈ table.rows, row ∈ (f table).rows) :
    Extends t (Function.update t name ((t name).map f)) := by
  intro name' table htable
  by_cases hname : name' = name
  · subst hname
    exact ⟨f table, by rw [Function.update_self, htable, Option.map_some], h table htable⟩
  · exact ⟨table, by rw [Function.update_of_ne hname, htable], rfl, fun _ hrow => hrow⟩

end Update

/-- The references of the new tables have found their rows in the old ones, and keep them. -/
theorem Consistent.of_keepsTargets {t t' : Tables} (htyped : TypedRows t')
    (hrefers : ∀ c v, Refers t' c v → HasTarget t c v) (hkeeps : KeepsTargets t t') :
    Consistent t' :=
  ⟨htyped, fun c v h => hkeeps c v h (hrefers c v h)⟩

section Apply

variable {t : Tables} (hconsistent : Consistent t)
include hconsistent

/-- Tables that are left as they were, and new versions of one table whose rows are typed and whose
references have found their rows. -/
theorem consistent_update_map {name : String} {f : StoredTable → StoredTable}
    (hrows : ∀ table, t name = some table → ∀ row ∈ (f table).rows,
      TypedRow (f table).schema row.values ∧ Satisfied t (f table).schema row.values)
    (hkeeps : KeepsTargets t (Function.update t name ((t name).map f))) :
    Consistent (Function.update t name ((t name).map f)) := by
  refine Consistent.of_keepsTargets ?_ ?_ hkeeps
  · intro name' table' htable' row hrow
    rcases eq_some_of_update_map htable' with ⟨-, h⟩ | ⟨table, -, htable, rfl⟩
    · exact hconsistent.typed name' table' h row hrow
    · exact (hrows table htable row hrow).1
  · rintro c v ⟨name', table', htable', row, hrow, hrefers⟩
    rcases eq_some_of_update_map htable' with ⟨-, h⟩ | ⟨table, -, htable, rfl⟩
    · exact hconsistent.integrity c v ⟨name', table', h, row, hrow, hrefers⟩
    · exact (hrows table htable row hrow).2 c v hrefers

/-- The rows that a table has already. -/
theorem Consistent.row {name : String} {table : StoredTable} (htable : t name = some table)
    {row : TableRow} (hrow : row ∈ table.rows) :
    TypedRow table.schema row.values ∧ Satisfied t table.schema row.values :=
  ⟨hconsistent.typed name table htable row hrow,
    fun c v h => hconsistent.integrity c v ⟨name, table, htable, row, hrow, h⟩⟩

/-- A row that is written. -/
theorem Consistent.writtenRow {name : String} {values : List Value} {table : StoredTable}
    (hstores : StoresReferences t name values) (htable : t name = some table)
    (htyped : TypedRow table.schema values)
    (hsatisfied : Consistent t → Satisfied t table.schema values) :
    TypedRow table.schema (table.stored values) ∧
      Satisfied t table.schema (table.stored values) := by
  refine ⟨htyped.stored, fun c v ⟨hc, hkind, hnull, column, hcolumn, hv⟩ => ?_⟩
  rw [hstores table htable c hc hkind column hcolumn] at hv
  exact hsatisfied hconsistent c v ⟨hc, hkind, hnull, column, hcolumn, hv⟩

/-- A change that the statements have checked and that is harmless keeps the references. -/
theorem Consistent.apply {c : Change} (hjustified : Justified t c) (hharmless : Harmless t c) :
    Consistent (c.apply t) := by
  cases c with
  | create schema =>
    have hnone : t schema.tableName = none := hjustified
    have heq : ∀ name table, (Change.create schema).apply t name = some table → table.rows ≠ [] →
        t name = some table := by
      intro name table htable hrows
      simp only [Change.apply, Function.update_apply] at htable
      split at htable
      · cases htable
        exact absurd rfl hrows
      · exact htable
    refine .of_keepsTargets (t := t) ?_ ?_ (keepsTargets_of_extends ?_)
    · intro name table htable row hrow
      exact hconsistent.typed name table (heq name table htable (List.ne_nil_of_mem hrow)) row hrow
    · rintro c v ⟨name, table, htable, row, hrow, hrefers⟩
      exact hconsistent.integrity c v
        ⟨name, table, heq name table htable (List.ne_nil_of_mem hrow), row, hrow, hrefers⟩
    · intro name table htable
      have hne : name ≠ schema.tableName := fun h => by simp [← h, htable] at hnone
      exact ⟨table, by simp [Change.apply, hne, htable], rfl, fun _ hrow => hrow⟩
  | drop name =>
    have heq : ∀ name' table, (Change.drop name).apply t name' = some table →
        t name' = some table := by
      intro name' table htable
      simp only [Change.apply, Function.update_apply] at htable
      split at htable
      · cases htable
      · exact htable
    refine .of_keepsTargets ?_ ?_ hharmless
    · exact fun name' table htable => hconsistent.typed name' table (heq name' table htable)
    · rintro c v ⟨name', table, htable, hrow⟩
      exact hconsistent.integrity c v ⟨name', table, heq name' table htable, hrow⟩
  | alter name schema =>
    refine consistent_update_map hconsistent (fun table htable row hrow => ?_)
      (keepsTargets_of_extends (extends_update_map fun table htable => ?_))
    · obtain ⟨hcolumns, hsatisfied⟩ := hjustified table htable
      refine ⟨fun i column v hcolumn => ?_, hsatisfied hconsistent row hrow⟩
      exact hconsistent.typed name table htable row hrow i column v
        ((congrArg (·[i]?) hcolumns).symm.trans hcolumn)
    · exact ⟨(hjustified table htable).1, fun _ hrow => hrow⟩
  | insert name id values =>
    refine consistent_update_map hconsistent (fun table htable row hrow => ?_)
      (keepsTargets_of_extends (extends_update_map fun table htable => ⟨rfl, fun row hrow => ?_⟩))
    · obtain ⟨-, htyped, hsatisfied⟩ := hjustified table htable
      rcases StoredTable.mem_insert.mp hrow with rfl | ⟨hrow, -⟩
      · have hwritten := hconsistent.writtenRow hharmless htable htyped hsatisfied
        exact hwritten
      · exact hconsistent.row htable hrow
    · have hfree := StoredTable.find_eq_none (hjustified table htable).1
      exact StoredTable.mem_insert.mpr (.inr ⟨hrow, hfree row hrow⟩)
  | delete name id =>
    refine consistent_update_map hconsistent (fun table htable row hrow => ?_) hharmless
    exact hconsistent.row htable (StoredTable.mem_remove.mp hrow).1
  | update name id newId values =>
    refine consistent_update_map hconsistent (fun table htable row hrow => ?_) hharmless.2
    obtain ⟨htyped, hsatisfied⟩ := hjustified table htable
    rcases StoredTable.mem_insert.mp hrow with rfl | ⟨hrow, -⟩
    · have hwritten := hconsistent.writtenRow hharmless.1 htable htyped hsatisfied
      exact hwritten
    · exact hconsistent.row htable (StoredTable.mem_remove.mp hrow).1

end Apply

/-! ## Programs that make justified changes only -/

/-- The way from `s` to `t`, outside a transaction, keeps the references if its changes are
harmless. -/
def Moves (s t : Database) : Prop :=
  t.inTransaction = false ∧ ∃ made, t.changes = made ++ s.changes ∧
    ((∀ p ∈ made, Harmless p.1 p.2) → Consistent s.tables → Consistent t.tables)

theorem Moves.refl {s : Database} (hout : s.inTransaction = false) : Moves s s :=
  ⟨hout, [], rfl, fun _ h => h⟩

theorem Moves.trans {r s t : Database} (h1 : Moves r s) (h2 : Moves s t) : Moves r t := by
  obtain ⟨-, made1, hchanges1, hkeeps1⟩ := h1
  obtain ⟨hout, made2, hchanges2, hkeeps2⟩ := h2
  refine ⟨hout, made2 ++ made1, by rw [hchanges2, hchanges1, List.append_assoc], ?_⟩
  intro hharmless hconsistent
  exact hkeeps2 (fun p hp => hharmless p (List.mem_append_left _ hp))
    (hkeeps1 (fun p hp => hharmless p (List.mem_append_right _ hp)) hconsistent)

theorem moves_of_wrote {db t : Database} {c : Option Change} (hw : Wrote db t c)
    (hjustified : ∀ c', c = some c' → Justified db.tables c') : Moves db t := by
  refine ⟨hw.outside, c.toList.map (db.tables, ·), hw.changes, fun hharmless hconsistent => ?_⟩
  rw [hw.tables]
  cases c with
  | none => exact hconsistent
  | some c =>
    exact hconsistent.apply (hjustified c rfl) (hharmless (db.tables, c) (List.mem_singleton_self _))

/-- Outside a transaction, the table is there with the schema that was loaded. -/
def Loaded (name : String) (schema : Schema) (db : Database) : Prop :=
  db.inTransaction = false ∧ ∃ table, db.tables name = some table ∧ table.schema = schema

/-- A program that is run with a loaded schema moves the state and leaves the schema. -/
def MovesOnly (name : String) (schema : Schema) (m : Prog ε Database α) : Prop :=
  Prog.Keeps (fun s t => Loaded name schema s → Loaded name schema t ∧ Moves s t) m

section MovesOnly

variable {name : String} {schema : Schema}

theorem steps_refl (s : Database) :
    Loaded name schema s → Loaded name schema s ∧ Moves s s := fun h => ⟨h, .refl h.1⟩

theorem steps_trans (r s t : Database)
    (h1 : Loaded name schema r → Loaded name schema s ∧ Moves r s)
    (h2 : Loaded name schema s → Loaded name schema t ∧ Moves s t) :
    Loaded name schema r → Loaded name schema t ∧ Moves r t := fun h =>
  ⟨(h2 (h1 h).1).1, (h1 h).2.trans (h2 (h1 h).1).2⟩

theorem MovesOnly.pure (a : α) : MovesOnly name schema (Pure.pure a : Prog ε Database α) :=
  Prog.keeps_pure steps_refl a

theorem MovesOnly.stop (e : ε) : MovesOnly name schema (Prog.stop e : Prog ε Database α) :=
  Prog.keeps_stop steps_refl e

theorem MovesOnly.bind {m : Prog ε Database α} {f : α → Prog ε Database β} (hm : MovesOnly name schema m)
    (hf : ∀ a, MovesOnly name schema (f a)) : MovesOnly name schema (m >>= f) :=
  Prog.keeps_bind steps_trans hm hf

theorem MovesOnly.of_onlyReads {m : Prog ε Database α} (hm : OnlyReads m) : MovesOnly name schema m := by
  intro db h
  rw [hm.state_eq h.1]
  exact steps_refl db h

theorem MovesOnly.orStop (r : Except QueryError α) : MovesOnly name schema (ScratchDb.orStop r) := by
  cases r with
  | ok a => exact .pure a
  | error e => exact .stop e

theorem MovesOnly.withSource (command : String) {m : Prog QueryError Database α}
    (hm : MovesOnly name schema m) : MovesOnly name schema (ScratchDb.withSource command m) := by
  intro db hdb
  have h := hm db hdb
  unfold ScratchDb.withSource
  rcases hr : m db with ⟨e | a, t⟩ <;> simpa [hr] using h

/-- A check that has passed justifies what follows it. -/
theorem MovesOnly.bind_check {check : Prog QueryError Database Unit} {f : Prog QueryError Database β}
    (hcheck : OnlyReads check)
    (hf : ∀ db, Loaded name schema db → (check db).1 = .ok () →
      Loaded name schema (f db).2 ∧ Moves db (f db).2) :
    MovesOnly name schema (check >>= fun _ => f) := by
  intro db h
  rw [Prog.bind_apply, hcheck.state_eq h.1]
  rcases hr : (check db).1 with e | _
  · exact steps_refl db h
  · exact hf db h hr

theorem steps_scanRows {body : α → TableRow → Prog ε Database (Bool × α)}
    (h : ∀ a r, MovesOnly name schema (body a r)) (name' : String) (a : α) :
    MovesOnly name schema (scanRows body name' a) :=
  keeps_scanRows steps_refl steps_trans
    (MovesOnly.of_onlyReads (onlyReads_acquireTransactionLock name' .shared)) h a

/-- A state whose one table has changed, but not its schema. -/
theorem loaded_of_wrote {db t : Database} {c : Option Change} (h : Loaded name schema db)
    (hw : Wrote db t c)
    (hc : ∀ c', c = some c' → ∃ f : StoredTable → StoredTable,
      c'.apply db.tables = Function.update db.tables name ((db.tables name).map f) ∧
        ∀ table, (f table).schema = table.schema) : Loaded name schema t := by
  obtain ⟨-, table, htable, hschema⟩ := h
  refine ⟨hw.outside, ?_⟩
  rw [hw.tables]
  cases c with
  | none => exact ⟨table, htable, hschema⟩
  | some c =>
    obtain ⟨f, hf, hkeeps⟩ := hc c rfl
    refine ⟨f table, ?_, (hkeeps table).trans hschema⟩
    rw [Option.elim_some, hf, Function.update_self, htable, Option.map_some]

theorem Loaded.schema_eq {db : Database} (h : Loaded name schema db) {table : StoredTable}
    (htable : db.tables name = some table) : table.schema = schema := by
  obtain ⟨-, table', htable', rfl⟩ := h
  rw [Option.some_inj.mp (htable.symm.trans htable')]

variable {parser : ValueParser} {command : String} {values : List Value}

/-- The checks of a row, at the tables they are made at. -/
theorem satisfied_of_checked {ignore : Option RecordId} {db : Database}
    (h : Loaded name schema db) (haccepts : schema.accepts values = true)
    (hok : (rowSatisfiesSchemaConstraints parser command name schema values ignore db).1 = .ok ()) :
    ∀ table, db.tables name = some table → TypedRow table.schema values ∧
      (Consistent db.tables → Satisfied db.tables table.schema values) := by
  obtain ⟨hout, table, htable, rfl⟩ := h
  intro table' htable'
  obtain rfl : table = table' := Option.some_inj.mp (htable.symm.trans htable')
  have htyped := typedRow_of_accepts haccepts
  exact ⟨htyped, fun hconsistent =>
    satisfied_of_rowSatisfiesSchemaConstraints hout hconsistent.typed htyped hok⟩

theorem steps_insertChecked (row : Except QueryError (List Value)) :
    MovesOnly name schema (insertChecked parser command name schema row) := by
  unfold insertChecked
  cases row with
  | error e => exact .stop e
  | ok values =>
    refine MovesOnly.bind_check
      (onlyReads_rowSatisfiesSchemaConstraints parser command name schema values none)
      fun db h hok => ?_
    obtain ⟨t, happly, hw⟩ := insertRow_outside (ε := QueryError) h.1 name values
    have hmoved : Loaded name schema t ∧ Moves db t := by
      refine ⟨loaded_of_wrote h hw fun c' hc' => ?_, moves_of_wrote hw fun c' hc' => ?_⟩
      · obtain ⟨id, -, rfl⟩ := Option.map_eq_some_iff.mp hc'
        exact ⟨fun table => table.insert id values, rfl, fun _ => rfl⟩
      · obtain ⟨id, hplace, rfl⟩ := Option.map_eq_some_iff.mp hc'
        obtain ⟨table, htable, hplace⟩ := Option.bind_eq_some_iff.mp hplace
        have haccepts := h.schema_eq htable ▸ accepts_of_insertPlace hplace
        have hsatisfied := satisfied_of_checked h haccepts hok
        intro table' htable'
        obtain rfl : table = table' := Option.some_inj.mp (htable.symm.trans htable')
        exact ⟨insertPlace_eq_some hplace, hsatisfied table htable⟩
    rw [Prog.bind_ok happly]
    cases (db.tables name).bind fun table => insertPlace table values db.answers with
    | none => exact hmoved
    | some id => exact hmoved

theorem steps_insertLoop (rows : List (Except QueryError (List Value))) :
    MovesOnly name schema (insertLoop parser command name schema rows) := by
  induction rows with
  | nil => exact .pure ()
  | cons row rows ih => exact (steps_insertChecked row).bind fun _ => ih

theorem steps_deleteRow (id : RecordId) :
    MovesOnly name schema (deleteRow name id : Prog ε Database Bool) := by
  intro db h
  obtain ⟨t, happly, hw, -⟩ := deleteRow_outside (ε := ε) h.1 name id
  have hdelete : ∀ c', (if (db.tables name).any fun table => deletes table id db.answers then
      some (Change.delete name id) else none) = some c' → c' = .delete name id := by
    intro c' hc'
    split at hc'
    · exact (Option.some_inj.mp hc').symm
    · cases hc'
  rw [happly]
  refine ⟨loaded_of_wrote h hw fun c' hc' => ?_, moves_of_wrote hw fun c' hc' => ?_⟩
  · rw [hdelete c' hc']
    exact ⟨fun table => table.remove id, rfl, fun _ => rfl⟩
  · rw [hdelete c' hc']
    trivial

theorem steps_deleteCallback (condition : Option QueryCondition) (count : Nat) (row : TableRow) :
    MovesOnly name schema (deleteCallback parser name schema condition count row) := by
  refine (MovesOnly.orStop _).bind fun matched => ?_
  cases matched with
  | false => exact .pure _
  | true =>
    refine (steps_deleteRow row.recordId).bind fun deleted => ?_
    cases deleted <;> exact .pure _

theorem steps_updateCallback (condition : Option QueryCondition)
    (newValues : List Value → Except QueryError (List Value)) (count : Nat) (row : TableRow) :
    MovesOnly name schema (updateCallback parser command name schema condition newValues count row) := by
  refine (MovesOnly.orStop _).bind fun matched => ?_
  cases matched with
  | false => exact .pure _
  | true =>
    refine (MovesOnly.orStop _).bind fun values => ?_
    refine MovesOnly.bind_check
      (onlyReads_rowSatisfiesSchemaConstraints parser command name schema values _)
      fun db h hok => ?_
    obtain ⟨t, happly, hw, -⟩ := updateRow_outside (ε := QueryError) h.1 name row.recordId values
    have hmoved : Loaded name schema t ∧ Moves db t := by
      refine ⟨loaded_of_wrote h hw fun c' hc' => ?_, moves_of_wrote hw fun c' hc' => ?_⟩
      · obtain ⟨newId, -, rfl⟩ := Option.map_eq_some_iff.mp hc'
        exact ⟨fun table => (table.remove row.recordId).insert newId values, rfl, fun _ => rfl⟩
      · obtain ⟨newId, hplace, rfl⟩ := Option.map_eq_some_iff.mp hc'
        obtain ⟨table, htable, hplace⟩ := Option.bind_eq_some_iff.mp hplace
        exact satisfied_of_checked h (h.schema_eq htable ▸ accepts_of_updatePlace hplace) hok
    rw [Prog.bind_ok happly]
    split <;> exact hmoved

theorem steps_scanStatement (done : String) {body : Nat → TableRow → Prog QueryError Database Nat}
    (h : ∀ count row, MovesOnly name schema (body count row)) :
    MovesOnly name schema (scanStatement command name done body) := by
  refine (steps_scanRows (fun count row => ((h count row).withSource command).bind fun _ => .pure _)
    name 0).bind fun (completed, count) => ?_
  cases completed with
  | true => exact .pure _
  | false => exact .stop _

end MovesOnly

/-! ## Changes of a schema -/

theorem RefersIn.of_schema {schema schema' : Schema} (hcolumns : schema'.columns = schema.columns)
    {values : List Value} {c : ConstraintDefinition} {v : Value}
    (h : RefersIn schema' values c v) (hc : c ∈ schema.constraints) : RefersIn schema values c v := by
  obtain ⟨-, hkind, hnull, column, hcolumn, hv⟩ := h
  refine ⟨hc, hkind, hnull, column, hcolumn, ?_⟩
  rw [← hv, rowValueForColumn, rowValueForColumn, columnIndex_congr hcolumns]

/-- A schema with no more constraints than the old one. -/
theorem justified_alter {t : Tables} {name : String} {table : StoredTable} {schema : Schema}
    (htable : t name = some table) (hcolumns : schema.columns = table.schema.columns)
    (hconstraints : ∀ c ∈ schema.constraints, c ∈ table.schema.constraints) :
    Justified t (.alter name schema) := by
  intro table' htable'
  obtain rfl : table = table' := Option.some_inj.mp (htable.symm.trans htable')
  refine ⟨hcolumns, fun hconsistent row hrow c v hrefers => ?_⟩
  exact (hconsistent.row htable hrow).2 c v
    (hrefers.of_schema hcolumns (hconstraints c hrefers.1))

theorem moves_replaceSchema {db : Database} (hout : db.inTransaction = false) {name : String}
    {parts : SchemaParts}
    (hjustified : ∀ schema, Schema.make parts = .ok schema →
      Justified db.tables (.alter name schema)) :
    Moves db ((replaceSchema name parts : Prog ε Database Bool) db).2 := by
  obtain ⟨b, t, happly, hw | ⟨schema, hmake, hw⟩⟩ := replaceSchema_outside (ε := ε) hout name parts
  · rw [happly]
    exact moves_of_wrote hw nofun
  · rw [happly]
    exact moves_of_wrote hw fun c' hc' => Option.some_inj.mp hc' ▸ hjustified schema hmake

/-- What follows only reports the outcome. -/
theorem state_bind_report {m : Prog ε Database α} {f : α → Prog ε Database β}
    (hf : ∀ a s, (f a s).2 = s) (db : Database) : ((m >>= f) db).2 = (m db).2 := by
  rw [Prog.bind_apply]
  rcases m db with ⟨e | a, t⟩
  · rfl
  · exact hf a t

theorem state_report (success : QueryResult) (failure : QueryError) (done : Bool) (s : Database) :
    ((if done = true then pure success else Prog.stop failure : Prog QueryError Database _) s).2 =
      s := by
  cases done <;> rfl

section Tables

variable {db : Database} (hout : db.inTransaction = false) {name : String} {table : StoredTable}
  (htable : db.tables name = some table)
include hout

/-- The operations that change the schema of a table. -/
theorem moves_lockedTable {f : StoredTable → Prog ε Database Bool}
    (hf : ∀ table, db.tables name = some table → Moves db (f table db).2) :
    Moves db ((acquireTransactionLock name .exclusive >>= fun locked =>
      if ¬ locked = true then pure false
      else Prog.get >>= fun db =>
        match db.tables name with
        | none => pure false
        | some table => f table : Prog ε Database Bool) db).2 := by
  rw [Prog.bind_ok (acquireTransactionLock_outside hout name .exclusive)]
  simp only [not_true_eq_false, if_false]
  rw [Prog.bind_ok (Prog.get_apply db)]
  cases htable : db.tables name with
  | none => exact .refl hout
  | some table => exact hf table htable

omit hout in
theorem moves_ite {p : Prop} [Decidable p] {m n : Prog ε Database α} (hm : Moves db (m db).2)
    (hn : Moves db (n db).2) : Moves db ((if p then m else n : Prog ε Database α) db).2 := by
  by_cases hp : p
  · rwa [if_pos hp]
  · rwa [if_neg hp]

theorem moves_dropConstraint (name : String) (id : Nat) :
    Moves db ((dropConstraint name id : Prog ε Database Bool) db).2 := by
  refine moves_lockedTable hout fun table htable => ?_
  refine moves_ite (.refl hout) (moves_replaceSchema hout fun schema hmake => ?_)
  have hparts := Schema.make_eq_ok hmake
  refine justified_alter htable (by rw [hparts]) fun c hc => ?_
  rw [hparts] at hc
  exact (List.mem_filter.mp hc).1

theorem moves_createIndex (name indexName columnName : String) (unique : Bool) :
    Moves db ((createIndex name indexName columnName unique : Prog ε Database Bool) db).2 := by
  refine moves_lockedTable hout fun table htable => ?_
  refine moves_ite (.refl hout) (moves_replaceSchema hout fun schema hmake => ?_)
  have hparts := Schema.make_eq_ok hmake
  refine justified_alter htable (by rw [hparts]) fun c hc => ?_
  rwa [hparts] at hc

theorem moves_dropIndex (name indexName : String) :
    Moves db ((dropIndex name indexName : Prog ε Database Bool) db).2 := by
  refine moves_lockedTable hout fun table htable => ?_
  refine moves_ite (.refl hout) (moves_replaceSchema hout fun schema hmake => ?_)
  have hparts := Schema.make_eq_ok hmake
  refine justified_alter htable (by rw [hparts]) fun c hc => ?_
  rwa [hparts] at hc

theorem moves_addConstraint (name : String) (c : ConstraintDefinition)
    (hchecked : ∀ table, db.tables name = some table → ∀ schema : Schema,
      schema.columns = table.schema.columns →
      schema.constraints = table.schema.constraints ++
        [{ c with id := nextId (table.schema.constraints.map (·.id)) }] →
      Consistent db.tables → ∀ row ∈ table.rows, Satisfied db.tables schema row.values) :
    Moves db ((addConstraint name c : Prog ε Database Bool) db).2 := by
  refine moves_lockedTable hout fun table htable => ?_
  refine moves_replaceSchema hout fun schema hmake => ?_
  have hparts := Schema.make_eq_ok hmake
  intro table' htable'
  obtain rfl : table = table' := Option.some_inj.mp (htable.symm.trans htable')
  have hcolumns : schema.columns = table.schema.columns := by rw [hparts]
  exact ⟨hcolumns, hchecked table htable schema hcolumns (by rw [hparts])⟩

/-- A scan that has come to its end has accepted every row. -/
theorem ok_of_scanList {check : TableRow → Prog ε Database Unit} (hcheck : ∀ r, OnlyReads (check r))
    {rows : List TableRow} {completed : Bool}
    (h : (scanList (fun _ row => check row >>= fun _ => pure (true, ())) () rows db).1 =
      .ok (completed, ())) : ∀ r ∈ rows, (check r db).1 = .ok () := by
  induction rows with
  | nil => exact fun _ hr => nomatch hr
  | cons r rs ih =>
    rw [scanList, Prog.bind_apply, Prog.bind_apply, (hcheck r).state_eq hout] at h
    rcases hr : (check r db).1 with e | _
    · simp [hr] at h
    · simp only [hr] at h
      intro x hx
      rcases List.mem_cons.mp hx with rfl | hx
      · exact hr
      · exact ih h x hx

theorem moves_withSchema {command : String} {body : Schema → Prog QueryError Database α}
    (h : ∀ table, db.tables name = some table → Moves db (body table.schema db).2) :
    Moves db (withSchema command name body db).2 := by
  rw [withSchema, Prog.bind_ok (loadSchema_outside hout name)]
  cases htable : db.tables name with
  | none => exact .refl hout
  | some table => exact h table htable

end Tables

/-! ## Statements -/

section Statements

variable {db : Database} (hout : db.inTransaction = false) (parser : ValueParser)
  (command name : String)
include hout

/-- A statement that only steps once its schema is loaded. -/
theorem moves_withSchema_of_steps {body : Schema → Prog QueryError Database α}
    (h : ∀ schema, MovesOnly name schema (body schema)) :
    Moves db (withSchema command name body db).2 :=
  moves_withSchema hout fun table htable => (h table.schema db ⟨hout, table, htable, rfl⟩).2

theorem moves_createTableStatement (parts : SchemaParts) (ifNotExists : Bool) :
    Moves db (createTableStatement command parts ifNotExists db).2 := by
  rw [createTableStatement, Prog.bind_ok (tableExists_outside hout parts.tableName)]
  cases hnone : db.tables parts.tableName with
  | some table => cases ifNotExists <;> exact .refl hout
  | none =>
    simp only [Option.isSome_none, Bool.false_eq_true, if_false]
    cases hmake : Schema.make parts with
    | error e => exact .refl hout
    | ok schema =>
      have hparts := Schema.make_eq_ok hmake
      have hnone' : db.tables schema.tableName = none := by rw [hparts, hnone]
      obtain ⟨b, t, happly, hw⟩ := createTable_outside (ε := QueryError) hout hnone'
      dsimp only
      rw [state_bind_report (fun done s => state_report _ _ done s), happly]
      refine moves_of_wrote hw fun c' hc' => ?_
      split at hc'
      · exact Option.some_inj.mp hc' ▸ hnone'
      · cases hc'

theorem moves_dropTableStatement : Moves db (dropTableStatement command name db).2 := by
  rw [dropTableStatement, Prog.bind_ok (tableExists_outside hout name)]
  cases hnone : db.tables name with
  | none => exact .refl hout
  | some table =>
    simp only [Option.isSome_some, not_true_eq_false, if_false]
    obtain ⟨b, t, happly, hw⟩ := dropTable_outside (ε := QueryError) hout name
    rw [state_bind_report (fun done s => state_report _ _ done s), happly]
    refine moves_of_wrote hw fun c' hc' => ?_
    split at hc'
    · exact Option.some_inj.mp hc' ▸ trivial
    · cases hc'

theorem moves_alterAddConstraint (constraints : List ConstraintDefinition) :
    Moves db (alterAddConstraint parser command name constraints db).2 := by
  refine moves_withSchema hout fun table htable => ?_
  match constraints with
  | [] => exact .refl hout
  | _ :: _ :: _ => exact .refl hout
  | [c] =>
    dsimp only
    cases hmake : Schema.make _ with
    | error e => exact .refl hout
    | ok candidate =>
      have hparts := Schema.make_eq_ok hmake
      have hcheck : ∀ row : TableRow, OnlyReads (rowSatisfiesSchemaConstraints parser command name
          candidate row.values (some row.recordId)) := fun row =>
        onlyReads_rowSatisfiesSchemaConstraints parser command name candidate row.values _
      have hreads := onlyReads_scanRows
        (fun (_ : Unit) row => (hcheck row).bind fun _ => .pure (true, ())) name ()
      dsimp only
      rw [Prog.bind_apply, hreads.state_eq hout]
      rcases hscan : (scanRows _ name () db).1 with e | ⟨completed, _⟩
      · exact .refl hout
      · cases completed with
        | false => exact .refl hout
        | true =>
          simp only [not_true_eq_false, if_false]
          rw [state_bind_report (fun done s => state_report _ _ done s)]
          refine moves_addConstraint hout name c fun table' htable' schema hcolumns hconstraints
            hconsistent row hrow c' v hrefers => ?_
          obtain rfl : table = table' := Option.some_inj.mp (htable.symm.trans htable')
          -- the scan has checked the row against the same constraints
          rw [scanRows_outside hout name () htable
            fun (_ : Unit) row => (hcheck row).bind fun _ => .pure (true, ())] at hscan
          have hok := ok_of_scanList hout hcheck hscan row hrow
          have hcolumns' : candidate.columns = table.schema.columns := by rw [hparts]
          have htyped : TypedRow candidate row.values := fun i column w hcolumn =>
            (hconsistent.row htable hrow).1 i column w (hcolumns' ▸ hcolumn)
          refine satisfied_of_rowSatisfiesSchemaConstraints hout hconsistent.typed htyped hok c' v
            (hrefers.of_schema (hcolumns.trans hcolumns'.symm) ?_)
          have hc' := hrefers.1
          rw [hconstraints] at hc'
          rwa [hparts]

end Statements

/-- Outside a transaction every statement makes justified changes only. -/
theorem Statement.moves_run (parser : ValueParser) (command : String) (st : Statement)
    {db : Database} (hout : db.inTransaction = false) : Moves db (st.run parser command db).2 := by
  cases st with
  | insert name columns rows =>
    refine moves_withSchema_of_steps hout command name fun schema => ?_
    split
    · exact .stop _
    · exact (steps_insertLoop _).bind fun _ => .pure _
  | insertSelect name columns source =>
    refine moves_withSchema_of_steps hout command name fun schema => ?_
    cases source with
    | error e => exact .stop e
    | ok source =>
      dsimp only
      generalize (if columns = [] then schema.columns.map (·.name) else columns) = target
      split
      · exact .stop _
      · exact (steps_insertLoop _).bind fun _ => .pure _
  | update name valuesText condition =>
    refine moves_withSchema_of_steps hout command name fun schema => ?_
    cases parseRow parser schema valuesText (tokenPosition command valuesText) with
    | error e => exact .stop _
    | ok values => exact steps_scanStatement _ (steps_updateCallback condition _)
  | updateAssign name assignments condition =>
    refine moves_withSchema_of_steps hout command name fun schema => ?_
    split
    · exact .stop _
    · exact steps_scanStatement _ (steps_updateCallback condition _)
  | delete name condition =>
    exact moves_withSchema_of_steps hout command name fun schema =>
      steps_scanStatement _ (steps_deleteCallback condition)
  | createTable parts ifNotExists => exact moves_createTableStatement hout command parts ifNotExists
  | dropTable name => exact moves_dropTableStatement hout command name
  | addConstraint name constraints => exact moves_alterAddConstraint hout parser command name _
  | dropConstraint name id =>
    refine moves_withSchema hout fun table _ => ?_
    rw [state_bind_report (fun done s => state_report _ _ done s)]
    exact moves_dropConstraint hout name id
  | createIndex name index column unique =>
    refine moves_withSchema hout fun table _ => moves_ite (.refl hout) ?_
    rw [state_bind_report (fun done s => state_report _ _ done s)]
    exact moves_createIndex hout name index column unique
  | dropIndex name index =>
    refine moves_withSchema hout fun table _ => ?_
    rw [state_bind_report (fun done s => state_report _ _ done s)]
    exact moves_dropIndex hout name index

/-! ## Runs of an executor -/

/-- A statement with what it is run on and what its surroundings answer. -/
structure Execution where
  parser : ValueParser
  command : String
  statement : Statement
  answers : List Answer

def Execution.run (x : Execution) (t : Tables) : Database :=
  (x.statement.run x.parser x.command (autocommit t x.answers)).2

/-- One executor, from an empty database, outside transactions. -/
def executorMachine : Machine Tables Execution where
  init := fun _ => none
  next t x := some (x.run t).tables

/-- Each change that the statement makes is harmless. -/
def HarmlessExecution (t : Tables) (x : Execution) : Prop :=
  ∀ p ∈ (x.run t).changes, Harmless p.1 p.2

theorem consistent_of_reaches {t : Tables} (h : executorMachine.Reaches HarmlessExecution t) :
    Consistent t := by
  refine h.invariant (I := Consistent) ⟨fun _ _ h => ?_, fun c v h => ?_⟩ ?_
  · cases h
  · obtain ⟨_, _, h, -⟩ := h
    cases h
  · intro s t x hconsistent hharmless hnext
    have hmoves : Moves (autocommit s x.answers) (x.run s) :=
      x.statement.moves_run x.parser x.command rfl
    obtain ⟨-, made, hchanges, hkeeps⟩ := hmoves
    rw [show (autocommit s x.answers).changes = [] from rfl, List.append_nil] at hchanges
    obtain rfl : (x.run s).tables = t := Option.some_inj.mp hnext
    exact hkeeps (fun p hp => hharmless p (hchanges ▸ hp)) hconsistent

/-- In every run that takes no row away that a reference needs, every reference finds its row. -/
theorem referentialIntegrity_of_reaches {t : Tables}
    (h : executorMachine.Reaches HarmlessExecution t) : ReferentialIntegrity t :=
  (consistent_of_reaches h).integrity

/-! ## A row and one that refers to it -/

/-- A table whose one column refers to that of the table of numbers. -/
def referencesParts : SchemaParts where
  tableName := "refs"
  columns := numbersSchema.columns
  constraints := [{ id := 1, kind := .foreignKey, columns := ["n"], args := ["numbers", "n"] }]
  indexes := []
  storageMode := .disk

namespace Execution

def createNumbers : Execution :=
  ⟨numbersParser, "", .createTable numbersSchema.toSchemaParts false, [.done ⟨0, 0⟩]⟩

def createReferences : Execution :=
  ⟨numbersParser, "", .createTable referencesParts false, [.done ⟨0, 0⟩]⟩

def insertOne (name : String) : Execution :=
  ⟨numbersParser, "", .insert name [] ["1"], [.done ⟨0, 0⟩]⟩

def deleteNumbers : Execution := ⟨numbersParser, "", .delete "numbers" none, [.done ⟨0, 0⟩]⟩

end Execution

/-- A number and a row that refers to it, in tables of their own. -/
def referringTables : Tables :=
  ((Execution.insertOne "refs").run ((Execution.insertOne "numbers").run
    (Execution.createReferences.run (Execution.createNumbers.run fun _ => none).tables).tables).tables
      ).tables

theorem executorMachine_run_referring :
    executorMachine.run [.createNumbers, .createReferences, .insertOne "numbers",
      .insertOne "refs"] = some referringTables := rfl

/-- The number is deleted while a row refers to it. -/
theorem delete_not_checked :
    ¬ ∀ t, executorMachine.Reachable t → ReferentialIntegrity t := by
  intro h
  have hintegrity := h (Execution.deleteNumbers.run referringTables).tables
    (Machine.Reaches.step (Machine.reachable_of_run executorMachine_run_referring) trivial rfl)
  obtain ⟨refTable, refName, hargs, table, htable, i, -, row, hrow, -⟩ :=
    hintegrity { id := 1, kind := .foreignKey, columns := ["n"], args := ["numbers", "n"] }
      (.integer 1)
      ⟨"refs", _, rfl, ⟨⟨0, 0⟩, [.integer 1]⟩, by decide, List.mem_singleton_self _, rfl, rfl, "n",
        List.mem_singleton_self _, rfl⟩
  cases hargs
  cases htable
  exact List.not_mem_nil hrow

theorem HarmlessExecution.of_changes {t before : Tables} {x : Execution} {c : Change}
    (hchanges : (x.run t).changes = [(before, c)]) (hc : Harmless before c) :
    HarmlessExecution t x := by
  intro p hp
  rw [hchanges, List.mem_singleton] at hp
  exact hp ▸ hc

theorem referentialIntegrity_of_reaches_referring : ReferentialIntegrity referringTables := by
  refine referentialIntegrity_of_reaches (Machine.Reaches.step (a := .insertOne "refs")
    (Machine.Reaches.step (a := .insertOne "numbers")
      (Machine.Reaches.step (a := .createReferences)
        (Machine.Reaches.step (a := .createNumbers) .init
          (.of_changes rfl trivial) rfl)
        (.of_changes rfl trivial) rfl)
      (.of_changes rfl ?_) rfl)
    (.of_changes rfl ?_) rfl)
  · intro table htable c hc
    cases htable
    cases hc
  · intro table htable c hc hkind column hcolumn
    cases htable
    obtain rfl := List.mem_singleton.mp hc
    obtain rfl := List.mem_singleton.mp hcolumn
    rfl

end ScratchDb
