import ScratchDb.Query.CopiedRows
import ScratchDb.Query.TableEffects
import ScratchDb.Query.TablePages
import ScratchDb.Select.StarQueries

/-!
# `INSERT ... SELECT` of a whole table

What `INSERT INTO t2 SELECT * FROM t1` puts into an empty table with the columns
of `t1`: the copied rows, in the places that the table file has for them.
-/

namespace ScratchDb

open ValueParser

/-! ## One row -/

/-- A row of literals that were inserted: the text of the list consists of bytes. -/
def StoredTable.Storable (t : StoredTable) (values : List Value) : Prop :=
  ∃ (numbers : Select.LongDouble) (text : String) (position : Nat) (row : List Value),
    (∀ c ∈ text.toList, c.toNat < 256) ∧
      parseRow (Select.sourceTexts numbers).toValueParser t.schema text position = .ok row ∧
      values = t.stored row

theorem bytes_of_splitCsv {text : String} (h : ∀ c ∈ text.toList, c.toNat < 256)
    (basePosition : Nat) :
    ∀ part ∈ splitCsvWithPositions text basePosition, ∀ c ∈ part.1.toList, c.toNat < 256 := by
  intro part hpart c hc
  rw [← (excerpt_of_splitCsv hpart).2] at hc
  exact h c (List.mem_of_mem_drop (List.mem_of_mem_take hc))

/-- The texts of all columns, in their order. -/
theorem orderValues_all {command : String} {schema : Schema} {texts ordered : List String}
    (hlength : texts.length = schema.columns.length) (hne : ∀ text ∈ texts, text ≠ "")
    (h : orderValues command schema (schema.columns.map (·.name)) texts = .ok ordered) :
    ordered = texts := by
  obtain ⟨hreaches, -⟩ := reaches_of_orderValues h
  refine List.ext_getElem (hreaches.length.trans hlength.symm) fun i hi hi' => ?_
  have hcolumn : i < schema.columns.length := by omega
  have hpair : (schema.columns[i].name, texts[i]) ∈
      (schema.columns.map (·.name)).zip texts := by
    refine List.mem_iff_getElem.mpr ⟨i, by simp; omega, ?_⟩
    simp
  obtain ⟨j, hj, htext⟩ := hreaches.given _ hpair
  rw [Select.columnIndex_getElem schema hcolumn] at hj
  cases hj
  rw [List.getElem?_eq_getElem hi, Option.some.injEq, orNull,
    if_neg (hne _ (List.getElem_mem hi'))] at htext
  exact htext

theorem toList_sourceTexts (schema : Schema) (values : List Value)
    (hlength : values.length = schema.columns.length) :
    ((schema.columns.map (·.name)).zipWith (sourceText schema)
      (schema.columns.zipWith formatValue values)).map String.toList =
      copyLiterals schema.columns values := by
  refine List.ext_getElem (by simp [copyLiterals]) fun i hi hi' => ?_
  have hcolumn : i < schema.columns.length := by
    rw [copyLiterals, List.length_zipWith] at hi'
    omega
  simp only [List.getElem_map, List.getElem_zipWith, copyLiterals]
  exact toList_sourceText (Select.findColumn_getElem schema hcolumn) _

/-- What is parsed for a row of the source. -/
theorem rowOfSource_copied {t : StoredTable} {schema : Schema} {numbers : Select.LongDouble}
    {command name : String} {values copy : List Value}
    (hcolumns : schema.columns = t.schema.columns) (hstorable : t.Storable values)
    (h : rowOfSource (Select.sourceTexts numbers).toValueParser command name schema
      (schema.columns.map (·.name)) (schema.columns.zipWith formatValue values) = .ok copy) :
    copy = values.map copiedValue ∧ ∀ v ∈ values, v.InCalendar := by
  obtain ⟨_, text, position, row, hbytes, hparse, rfl⟩ := hstorable
  have hparsed := parsedRow_of_parseRow hparse
  have hkept := keptRow_stored t row
  obtain ⟨hlength, hvalueLength, htexts⟩ := copyLiterals_spec hparsed hkept
  have hscanned := (scanned_splitCsv text position).copies
    (follows_copies hparsed hkept (bytes_of_splitCsv hbytes position))
  rw [← hcolumns] at hparsed hlength hvalueLength htexts hscanned
  refine ⟨?_, inCalendar_of_parsed hparsed hkept⟩
  have hlists := toList_sourceTexts schema (t.stored row) hvalueLength
  set texts := (schema.columns.map (·.name)).zipWith (sourceText schema)
    (schema.columns.zipWith formatValue (t.stored row)) with htextsDef
  rw [← hlists] at htexts hscanned hlength
  rw [List.forall_mem_map] at htexts
  have hsplit : ∀ basePosition,
      (splitCsvWithPositions (joinValueList texts) basePosition).map Prod.fst = texts := by
    intro basePosition
    rw [← splitValueList_eq]
    refine splitValueList_of_uncut (fun v hv => (htexts v hv).1) ?_ ?_ ?_
    · exact fun v hv => hscanned.uncut _ (List.mem_map_of_mem hv)
    · intro v hv
      refine hscanned.returns _ ?_
      rw [← List.map_dropLast]
      exact List.mem_map_of_mem hv
    · cases htextsCases : texts with
      | nil => exact .inl rfl
      | cons v rest =>
        refine .inr (joinValueList_ne ?_ rest)
        rintro rfl
        exact (htexts "" (by rw [htextsCases]; exact List.mem_cons_self)).2 rfl
  rw [rowOfSource, ← htextsDef] at h
  cases hordered : orderValues command schema (schema.columns.map (·.name)) texts with
  | error e =>
    rw [hordered] at h
    cases h
  | ok ordered =>
    rw [hordered, orderValues_all (by rwa [List.length_map] at hlength) ?_ hordered] at h
    · cases hcopy : parseRow (Select.sourceTexts numbers).toValueParser schema (joinValueList texts)
          (tokenPosition command name) with
      | error e =>
        simp only [bind, Except.bind, hcopy] at h
        cases h
      | ok copy' =>
        simp only [bind, Except.bind, hcopy] at h
        rw [← Except.ok.inj h]
        refine values_of_copies schema.columnsValid.2.2.1 hparsed hkept
          (parsedRow_of_parseRow hcopy) ?_
        have hmapped := congrArg (List.map String.toList) (hsplit (tokenPosition command name))
        rw [List.map_map] at hmapped
        rw [← hlists]
        exact hmapped
    · intro v hv hempty
      rw [hempty] at hv
      exact (htexts "" hv).2 rfl

/-! ## The loop of the statement -/

/-- The insertions into a table, the first first. -/
def insertionsInto (name : String) (events : List Event) : List (RecordId × List Value) :=
  events.reverse.filterMap fun event =>
    match event with
    | .changed _ (.insert table id values) => if table = name then some (id, values) else none
    | _ => none

/-- The insertions between two states of a run. -/
def insertionsSince (name : String) (before after : Database) : List (RecordId × List Value) :=
  insertionsInto name (after.events.take (after.events.length - before.events.length))

/-- The run made these insertions and no other changes. -/
structure Inserted (name : String) (rows : List (RecordId × List Value)) (before after : Database) :
    Prop where
  tables : after.tables name = (before.tables name).map fun t => t.insertRows rows
  events : ∃ new, after.events = new ++ before.events ∧ insertionsInto name new = rows

section Run

variable {name : String} {before mid after : Database}

theorem Inserted.since {rows : List (RecordId × List Value)} (h : Inserted name rows before after) :
    insertionsSince name before after = rows := by
  obtain ⟨new, hnew, hrows⟩ := h.events
  rw [insertionsSince, hnew, List.length_append, Nat.add_sub_cancel, List.take_left, hrows]

theorem Inserted.trans {rows rows' : List (RecordId × List Value)}
    (h : Inserted name rows before mid) (h' : Inserted name rows' mid after) :
    Inserted name (rows ++ rows') before after := by
  obtain ⟨new, hnew, hrows⟩ := h.events
  obtain ⟨new', hnew', hrows'⟩ := h'.events
  constructor
  · rw [h'.tables, h.tables, Option.map_map]
    cases before.tables name with
    | none => rfl
    | some t =>
      rw [Option.map_some, Option.map_some, Function.comp_apply, StoredTable.insertRows,
        StoredTable.insertRows, StoredTable.insertRows, List.foldl_append]
  · refine ⟨new' ++ new, by rw [hnew', hnew, List.append_assoc], ?_⟩
    rw [insertionsInto, List.reverse_append, List.filterMap_append]
    exact congrArg₂ (· ++ ·) hrows hrows'

theorem Inserted.nil (htables : after.tables = before.tables) (hevents : after.events = before.events) :
    Inserted name [] before after := by
  constructor
  · rw [htables]
    cases before.tables name <;> rfl
  · exact ⟨[], hevents, rfl⟩

/-- A program that inserts nothing. -/
def InsertsNothing {ε α : Type} (m : Prog ε Database α) : Prop :=
  Prog.Keeps (fun s t : Database => t.tables = s.tables ∧ t.events = s.events) m

theorem insertsNothing_bind {ε α β : Type} {m : Prog ε Database α} {f : α → Prog ε Database β}
    (hm : InsertsNothing m) (hf : ∀ a, InsertsNothing (f a)) : InsertsNothing (m >>= f) :=
  Prog.keeps_bind (fun _ _ _ hab hbc => ⟨hbc.1.trans hab.1, hbc.2.trans hab.2⟩) hm hf

theorem insertsNothing_acquireTransactionLock {ε : Type} (name : String) (mode : TableLockMode) :
    InsertsNothing (Database.acquireTransactionLock name mode : Prog ε Database Bool) := by
  have hpure : ∀ b : Bool, InsertsNothing (pure b : Prog ε Database Bool) := fun b =>
    Prog.keeps_pure (fun s => ⟨rfl, rfl⟩) b
  have hask : InsertsNothing (Database.ask : Prog ε Database Answer) := by
    intro s
    rw [Database.ask]
    cases s.answers <;> exact ⟨rfl, rfl⟩
  have hobtain : InsertsNothing (Database.acquireTransactionLock.obtain name mode :
      Prog ε Database Bool) := by
    refine insertsNothing_bind hask fun answer => ?_
    cases answer with
    | done id =>
      exact insertsNothing_bind (Prog.keeps_modify fun s => ⟨rfl, rfl⟩) fun _ => hpure true
    | failed => exact hpure false
  refine insertsNothing_bind (Prog.keeps_get fun s => ⟨rfl, rfl⟩) fun db => ?_
  split
  · exact hpure true
  split
  · exact hpure false
  split
  · split
    · exact hpure true
    · exact insertsNothing_bind (Prog.keeps_modify fun s => ⟨rfl, rfl⟩) fun _ => hobtain
  · exact hobtain

theorem insertRow_inserted {values : List Value} {id : RecordId}
    (h : (Database.insertRow name values : Prog QueryError Database (Option RecordId)) before =
      (.ok (some id), after)) : Inserted name [(id, values)] before after := by
  rw [Database.insertRow] at h
  obtain ⟨locked, mid, hlock, h⟩ := Prog.bind_eq_ok h
  have hmid := insertsNothing_acquireTransactionLock (ε := QueryError) name .exclusive before
  rw [hlock] at hmid
  cases locked with
  | false => cases h
  | true =>
    simp only [not_true_eq_false, if_false] at h
    rw [Prog.bind_ok (Prog.get_apply mid)] at h
    cases htable : mid.tables name with
    | none =>
      simp only [htable] at h
      cases h
    | some table =>
      simp only [htable] at h
      split at h
      · cases h
      obtain ⟨answer, asked, hask, h⟩ := Prog.bind_eq_ok h
      have hasked : asked.tables = mid.tables ∧ asked.events = mid.events := by
        rw [Database.ask] at hask
        split at hask <;> cases hask <;> exact ⟨rfl, rfl⟩
      cases answer with
      | failed stays id' =>
        simp only at h
        split at h
        · obtain ⟨_, _, -, hnone⟩ := Prog.bind_eq_ok h
          cases hnone
        · cases h
      | done id' =>
        simp only at h
        split at h
        · cases h
        · cases h
          constructor
          · show Function.update asked.tables name _ name = _
            rw [Function.update_self, hasked.1, hmid.1]
            rfl
          · refine ⟨[.changed asked.tables (.insert name id values)], ?_, ?_⟩
            · show _ :: asked.events = _
              rw [hasked.2, hmid.2]
              rfl
            · rw [insertionsInto, List.reverse_singleton, List.filterMap_cons]
              simp

theorem insertChecked_inserted {parser : ValueParser} {command : String} {schema : Schema}
    {row : Except QueryError (List Value)} (hconstraints : schema.constraints = [])
    (h : insertChecked parser command name schema row before = (.ok (), after)) :
    ∃ id values, row = .ok values ∧ Inserted name [(id, values)] before after := by
  cases row with
  | error e => cases h
  | ok values =>
    unfold insertChecked at h
    have hchecked : rowSatisfiesSchemaConstraints parser command name schema values none before =
        (.ok (), before) := by
      rw [rowSatisfiesSchemaConstraints, hconstraints]
      rfl
    dsimp only at h
    rw [Prog.bind_ok hchecked] at h
    obtain ⟨place, mid, hinsert, h⟩ := Prog.bind_eq_ok h
    cases place with
    | none => cases h
    | some id =>
      cases h
      exact ⟨id, values, rfl, insertRow_inserted hinsert⟩

/-- All rows are inserted, in their order. -/
theorem insertLoop_inserted {parser : ValueParser} {command : String} {schema : Schema}
    {rows : List (Except QueryError (List Value))} (hconstraints : schema.constraints = [])
    (h : insertLoop parser command name schema rows before = (.ok (), after)) :
    ∃ placed : List (RecordId × List Value),
      rows = placed.map (fun row => .ok row.2) ∧ Inserted name placed before after := by
  induction rows generalizing before with
  | nil =>
    cases h
    exact ⟨[], rfl, .nil rfl rfl⟩
  | cons row rows ih =>
    rw [insertLoop] at h
    obtain ⟨_, mid, hrow, hloop⟩ := Prog.bind_eq_ok h
    obtain ⟨id, values, rfl, hfirst⟩ := insertChecked_inserted hconstraints hrow
    obtain ⟨placed, rfl, hrest⟩ := ih hloop
    exact ⟨(id, values) :: placed, rfl, hfirst.trans hrest⟩

theorem insertsNothing_loadSchema {ε : Type} (name : String) :
    InsertsNothing (Database.loadSchema name : Prog ε Database (Option Schema)) := by
  refine insertsNothing_bind (insertsNothing_acquireTransactionLock name .shared) fun locked => ?_
  split
  · exact Prog.keeps_pure (fun s => ⟨rfl, rfl⟩) none
  · exact insertsNothing_bind (Prog.keeps_get fun s => ⟨rfl, rfl⟩) fun db =>
      Prog.keeps_pure (fun s => ⟨rfl, rfl⟩) _

theorem loadSchema_some {ε : Type} {schema : Schema}
    (h : (Database.loadSchema name : Prog ε Database (Option Schema)) before =
      (.ok (some schema), after)) : ∃ t, before.tables name = some t ∧ t.schema = schema := by
  have hkept := insertsNothing_acquireTransactionLock (ε := ε) name .shared before
  rw [Database.loadSchema] at h
  obtain ⟨locked, mid, hlock, h⟩ := Prog.bind_eq_ok h
  rw [hlock] at hkept
  split at h
  · cases h
  · rw [Prog.bind_ok (Prog.get_apply mid)] at h
    have htable : (mid.tables name).map StoredTable.schema = some schema :=
      Except.ok.inj (congrArg Prod.fst h)
    rw [hkept.1] at htable
    exact Option.map_eq_some_iff.mp htable

theorem insertSelect_inserted {parser : ValueParser} {command : String} {t : StoredTable}
    {source : SelectResult} {result : QueryResult} (ht : before.tables name = some t)
    (hconstraints : t.schema.constraints = [])
    (h : insertSelect parser command name [] (.ok source) before = (.ok result, after)) :
    ∃ placed : List (RecordId × List Value),
      source.rows.map (rowOfSource parser command name t.schema
          (t.schema.columns.map (·.name))) = placed.map (fun row => .ok row.2) ∧
        Inserted name placed before after := by
  rw [insertSelect, withSchema] at h
  obtain ⟨schema, mid, hload, h⟩ := Prog.bind_eq_ok h
  have hkept := insertsNothing_loadSchema (ε := QueryError) name before
  rw [hload] at hkept
  cases schema with
  | none => cases h
  | some schema =>
    obtain ⟨t', ht', rfl⟩ := loadSchema_some hload
    rw [ht] at ht'
    cases ht'
    simp only [if_true] at h
    split at h
    · cases h
    · obtain ⟨_, last, hloop, h⟩ := Prog.bind_eq_ok h
      cases h
      obtain ⟨placed, hrows, hinserted⟩ := insertLoop_inserted hconstraints hloop
      exact ⟨placed, hrows, (Inserted.nil hkept.1 hkept.2).trans hinserted⟩

end Run

/-! ## The source -/

theorem Select.executeSelectChain_allOf (env : Select.SelectEnv) (name : String) (fuel : Nat) :
    Select.executeSelectChain env (fuel + 1) (.allOf name) none =
      .ok (Select.selectAll env name "") := by
  have hfinish : ∀ r : Select.QueryResult,
      Select.finishSelect env.texts env.command (.allOf name) r = some r := by
    intro r
    cases hok : r.isOk with
    | false =>
      show (if r.isOk = false then some r else some r) = some r
      rw [if_pos hok]
    | true =>
      show (if r.isOk = false then some r else some r) = some r
      rw [if_neg (by simp [hok])]
  set r := Select.selectAll env name "" with hr
  have hselect : Select.executeSelect env (OpenRecursion.iterate (Select.chainStep env) fuel)
      (.allOf name) = .ok r := by
    show (if r.isOk = false then (pure r : OpenRecursion.Run Select.QueryResult) else
      Select.orThrow (Select.finishSelect env.texts env.command (.allOf name) r)) = _
    rw [hfinish]
    split <;> rfl
  show (Select.executeSelect env _ (.allOf name) >>= fun result =>
    if result.isOk = false then pure result else pure result) = _
  rw [hselect]
  show (if r.isOk = false then (pure r : OpenRecursion.Run Select.QueryResult) else pure r) = _
  rw [ite_self]
  rfl

/-- The tables as a query without joins reads them. -/
def Database.selectEnv (db : Database) (texts : Select.ValueTexts) (command : String) :
    Select.SelectEnv where
  texts := texts
  command := command
  loadSchema name := (db.tables name).map StoredTable.schema
  scanRows name := (((db.tables name).map StoredTable.rows).getD [], (db.tables name).isSome)
  findRowsByIndex _ _ _ := none

/-- What `insert_select` takes from the result of the query. -/
def selectResult (r : Select.QueryResult) : Except QueryError SelectResult :=
  match r.error with
  | some e => .error e
  | none => .ok { columnCount := r.columns.length, rows := r.rows }

theorem StoredTable.Storable.length_eq {t : StoredTable} {values : List Value}
    (h : t.Storable values) : values.length = t.schema.columns.length := by
  obtain ⟨_, text, position, row, -, hparse, rfl⟩ := h
  exact (copyLiterals_spec (parsedRow_of_parseRow hparse) (keptRow_stored t row)).2.1

/-- `SELECT * FROM name` returns the texts of the rows. -/
theorem selectResult_allOf {db : Database} {t : StoredTable} {name command : String}
    {texts : Select.ValueTexts} {fuel : Nat} {source : Select.QueryResult}
    (ht : db.tables name = some t)
    (hrows : ∀ row ∈ t.rows, row.values.length = t.schema.columns.length)
    (h : Select.executeSelectChain (db.selectEnv texts command) fuel (.allOf name) none =
      .ok source) :
    ∃ selected, selectResult source = .ok selected ∧
      selected.rows = t.rows.map fun row =>
        t.schema.columns.zipWith texts.formatValue row.values := by
  cases fuel with
  | zero => cases h
  | succ fuel =>
    rw [Select.executeSelectChain_allOf, Except.ok.injEq, Select.selectAll] at h
    have hschema : (db.selectEnv texts command).loadSchema name = some t.schema := by
      show (db.tables name).map StoredTable.schema = some t.schema
      rw [ht]
      rfl
    have hscan : (db.selectEnv texts command).scanRows name = (t.rows, true) := by
      show (((db.tables name).map StoredTable.rows).getD [], (db.tables name).isSome) = _
      rw [ht]
      rfl
    have htexts : (db.selectEnv texts command).texts = texts := rfl
    rw [hschema, hscan, htexts] at h
    simp only [if_true] at h
    have hsame := Select.sameData_setTableColumnLookup
      { columns := Select.tableColumns t.schema, rows := t.rows.map (Select.tableRow texts t.schema),
        rowCount := t.rows.length } name ""
    rw [h] at hsame
    refine ⟨{ columnCount := source.columns.length, rows := source.rows }, ?_, ?_⟩
    · rw [selectResult, hsame.error]
    · rw [hsame.rows]
      exact List.map_congr_left fun row hrow =>
        Select.tableRow_eq_zipWith texts t.schema (hrows row hrow)

/-! ## The copies -/

section Copies

open SlottedStore

variable {numbers : Select.LongDouble} {command n1 n2 : String} {t1 t2 : StoredTable}
  {db db' : Database} {pages : List (Slots (List Value))} {source : Select.QueryResult}
  {result : QueryResult} {fuel : Nat}

/-- What is parsed for the rows of the source. -/
theorem rowsOfSource_copied {rows : List TableRow} {placed : List (RecordId × List Value)}
    (hcolumns : t2.schema.columns = t1.schema.columns)
    (hrows : ∀ row ∈ rows, t1.Storable row.values)
    (h : rows.map (fun row => rowOfSource (Select.sourceTexts numbers).toValueParser command n2
        t2.schema (t2.schema.columns.map (·.name))
        (t2.schema.columns.zipWith formatValue row.values)) = placed.map (fun row => .ok row.2)) :
    placed.map Prod.snd = rows.map (fun row => row.values.map copiedValue) ∧
      ∀ row ∈ rows, ∀ v ∈ row.values, v.InCalendar := by
  induction rows generalizing placed with
  | nil =>
    cases placed with
    | nil => exact ⟨rfl, fun row hrow => absurd hrow List.not_mem_nil⟩
    | cons _ _ => cases h
  | cons row rows ih =>
    cases placed with
    | nil => cases h
    | cons first placed =>
      obtain ⟨hfirst, hrest⟩ := List.cons.inj h
      obtain ⟨hcopy, hcalendar⟩ :=
        rowOfSource_copied hcolumns (hrows row List.mem_cons_self) hfirst
      obtain ⟨hcopies, hcalendars⟩ := ih (fun r hr => hrows r (List.mem_cons_of_mem _ hr)) hrest
      refine ⟨?_, List.forall_mem_cons.mpr ⟨hcalendar, hcalendars⟩⟩
      rw [List.map_cons, List.map_cons, hcopy, hcopies]

theorem insertSelect_copied (h1 : db.tables n1 = some t1) (h2 : db.tables n2 = some t2)
    (hrows : ∀ row ∈ t1.rows, t1.Storable row.values)
    (hcolumns : t2.schema.columns = t1.schema.columns) (hconstraints : t2.schema.constraints = [])
    (hselect : Select.executeSelectChain (db.selectEnv (Select.sourceTexts numbers) command) fuel
      (.allOf n1) none = .ok source)
    (hrun : insertSelect (Select.sourceTexts numbers).toValueParser command n2 []
      (selectResult source) db = (.ok result, db')) :
    ∃ placed : List (RecordId × List Value), Inserted n2 placed db db' ∧
      placed.map Prod.snd = t1.rows.map (fun row => row.values.map copiedValue) ∧
        ∀ row ∈ t1.rows, ∀ v ∈ row.values, v.InCalendar := by
  obtain ⟨selected, hselected, htexts⟩ :=
    selectResult_allOf h1 (fun row hrow => (hrows row hrow).length_eq) hselect
  rw [hselected] at hrun
  obtain ⟨placed, hplaced, hinserted⟩ := insertSelect_inserted h2 hconstraints hrun
  rw [htexts, List.map_map, ← hcolumns] at hplaced
  exact ⟨placed, hinserted, rowsOfSource_copied hcolumns hrows hplaced⟩

/-- The rows of an empty table after `INSERT INTO t2 SELECT * FROM t1` are those of `t1` exactly if
each value is kept and no page takes a row behind one that it has refused. -/
theorem insertSelect_copies_iff (h1 : db.tables n1 = some t1) (h2 : db.tables n2 = some t2)
    (hrows : ∀ row ∈ t1.rows, t1.Storable row.values) (hempty : t2.rows = [])
    (hcolumns : t2.schema.columns = t1.schema.columns) (hconstraints : t2.schema.constraints = [])
    (hpages : t2.HeldIn pages)
    (hselect : Select.executeSelectChain (db.selectEnv (Select.sourceTexts numbers) command) fuel
      (.allOf n1) none = .ok source)
    (hrun : insertSelect (Select.sourceTexts numbers).toValueParser command n2 []
      (selectResult source) db = (.ok result, db'))
    (hplaced : PlacedIn t2 pages (insertionsSince n2 db db')) :
    ∃ t2', db'.tables n2 = some t2' ∧
      (t2'.rows.map (·.values) = t1.rows.map (·.values) ↔
        (∀ row ∈ t1.rows, ∀ v ∈ row.values, v.KeptByCopy t2.schema.storageMode) ∧
          KeepsOrder (rowCapacity t2.schema) pages (t1.rows.map (·.values))) := by
  obtain ⟨placed, hinserted, hcopies, hcalendar⟩ :=
    insertSelect_copied h1 h2 hrows hcolumns hconstraints hselect hrun
  rw [hinserted.since] at hplaced
  obtain ⟨after, hafter, hheld⟩ := heldIn_insertRows hpages hplaced
  refine ⟨t2.insertRows placed, by rw [hinserted.tables, h2]; rfl, ?_⟩
  have hstored : (placed.map fun row => t2.stored row.2) =
      (t1.rows.map (·.values)).map (copiedRow t2.schema.storageMode) := by
    have hmapped := congrArg (List.map t2.stored) hcopies
    rw [List.map_map, List.map_map] at hmapped
    refine hmapped.trans ?_
    rw [List.map_map]
    refine List.map_congr_left fun row _ => ?_
    rw [Function.comp_apply, StoredTable.stored_eq, List.map_map]
    rfl
  have hnone : contents pages = [] := by
    rw [← hpages.contents, hempty]
    rfl
  rw [hstored] at hafter
  rw [hheld.contents]
  have hvalues : ∀ values ∈ t1.rows.map (·.values), ∀ v ∈ values, v.InCalendar := by
    rw [List.forall_mem_map]
    exact hcalendar
  have hsame : (∀ row ∈ t1.rows, ∀ v ∈ row.values, v.KeptByCopy t2.schema.storageMode) →
      (t1.rows.map (·.values)).map (copiedRow t2.schema.storageMode) = t1.rows.map (·.values) := by
    intro hkept
    conv_rhs => rw [← List.map_id (t1.rows.map (·.values))]
    refine List.map_congr_left fun values hmem => ?_
    obtain ⟨row, hrow, rfl⟩ := List.mem_map.mp hmem
    exact (copiedRow_eq_iff (hcalendar row hrow)).mpr (hkept row hrow)
  have hfree : ∀ slots ∈ pages, slots.reduceOption = [] := by
    rw [contents_eq, List.flatMap_eq_nil_iff] at hnone
    exact hnone
  have horder := contents_insertAll_iff hafter
    (fun slots hslots => compact_of_free (hfree slots (List.mem_of_head? hslots)))
    (fun slots hslots => hfree slots (List.mem_of_mem_tail hslots))
  rw [hnone, List.nil_append] at horder
  constructor
  · intro hall
    have hperm := contents_insertAll hafter
    rw [hall, hnone, List.append_nil] at hperm
    have hkept := kept_of_perm hvalues hperm.symm
    rw [List.forall_mem_map] at hkept
    rw [hsame hkept] at horder
    exact ⟨hkept, horder.mp hall⟩
  · rintro ⟨hkept, hkeeps⟩
    rw [hsame hkept] at horder
    exact horder.mpr hkeeps

end Copies

/-! ## A table of names -/

def namesSchema : Schema where
  tableName := "names"
  columns := [{ name := "name", type := .varstring, nullable := true, maxSize := 8, precision := 0,
                scale := 0 }]
  constraints := []
  indexes := []
  storageMode := .disk
  nameValid := by decide
  columnsValid := by decide
  constraintsValid := by decide
  indexesValid := by decide

def copiesSchema : Schema where
  tableName := "copies"
  columns := namesSchema.columns
  constraints := []
  indexes := []
  storageMode := .disk
  nameValid := by decide
  columnsValid := namesSchema.columnsValid
  constraintsValid := namesSchema.constraintsValid
  indexesValid := namesSchema.indexesValid

/-- A table of one row. -/
def namesTable (name : String) : StoredTable :=
  (StoredTable.empty namesSchema).insert ⟨0, 0⟩ [.varstring (bytesOf name.toList)]

/-- There is room at the first place of the empty table. -/
def namesDatabase (name : String) : Database where
  tables := Function.update (Function.update (fun _ => none) "names" (some (namesTable name)))
    "copies" (some (.empty copiesSchema))
  inTransaction := false
  transactionAborted := false
  activeTableLocks := fun _ => none
  answers := [.done ⟨0, 0⟩]
  events := []

def copyNames : String := "INSERT INTO copies SELECT * FROM names"

def selectedNames (name : String) : Select.QueryResult :=
  Select.selectAll ((namesDatabase name).selectEnv
    (Select.sourceTexts Select.integerTexts.numbers) copyNames) "names" ""

def copiedNames (name : String) : Except QueryError QueryResult × Database :=
  insertSelect (Select.sourceTexts Select.integerTexts.numbers).toValueParser copyNames "copies" []
    (selectResult (selectedNames name)) (namesDatabase name)

open SlottedStore in
theorem insertSelect_copies_iff_name :
    ∃ t, (copiedNames "Ada").2.tables "copies" = some t ∧
      t.rows.map (·.values) = [[.varstring (bytesOf "Ada".toList)]] := by
  have hresult : (copiedNames "Ada").1 = .ok { message := "row inserted", rowCount := 1 } := by
    decide +kernel
  have hplaced : insertionsSince "copies" (namesDatabase "Ada") (copiedNames "Ada").2 =
      [(⟨0, 0⟩, [.varstring (bytesOf "Ada".toList)])] := by
    decide +kernel
  have hbytes : ("'Ada'".toList.all fun c => decide (c.toNat < 256)) = true := by decide
  have hstorable : ∀ row ∈ (namesTable "Ada").rows, (namesTable "Ada").Storable row.values := by
    intro row hrow
    rw [List.mem_singleton.mp hrow]
    exact ⟨Select.integerTexts.numbers, "'Ada'", 0, [.varstring (bytesOf "Ada".toList)],
      fun c hc => of_decide_eq_true (List.all_eq_true.mp hbytes c hc), rfl, rfl⟩
  have hpages := StoredTable.heldIn_empty copiesSchema
  obtain ⟨t, ht, hcopies⟩ := @insertSelect_copies_iff Select.integerTexts.numbers copyNames "names"
    "copies" (namesTable "Ada") (.empty copiesSchema) (namesDatabase "Ada") _ [] (selectedNames "Ada")
    _ 1 rfl rfl hstorable rfl rfl rfl hpages rfl (Prod.ext hresult rfl)
    (hplaced ▸ ⟨_, rfl, rfl, trivial⟩)
  refine ⟨t, ht, hcopies.mpr ⟨?_, ?_⟩⟩
  · intro row hrow v hv
    rw [List.mem_singleton.mp hrow] at hv
    rw [List.mem_singleton.mp hv]
    exact fun h => absurd h (by decide)
  · show KeepsOrder _ [] [_]
    simp only [KeepsOrder]

open SlottedStore in
/-- A string `NULL` becomes a NULL. -/
theorem name_null_not_copied :
    ¬ ∀ (numbers : Select.LongDouble) (command n1 n2 : String) (t1 t2 : StoredTable)
      (db db' : Database) (pages : List (Slots (List Value))) (source : Select.QueryResult)
      (result : QueryResult) (fuel : Nat), db.tables n1 = some t1 → db.tables n2 = some t2 →
        (∀ row ∈ t1.rows, t1.Storable row.values) → t2.rows = [] →
        t2.schema.columns = t1.schema.columns → t2.schema.constraints = [] →
        t2.schema.indexes = [] → t2.HeldIn pages →
        Select.executeSelectChain (db.selectEnv (Select.sourceTexts numbers) command) fuel
          (.allOf n1) none = .ok source →
        insertSelect (Select.sourceTexts numbers).toValueParser command n2 []
          (selectResult source) db = (.ok result, db') →
        PlacedIn t2 pages (insertionsSince n2 db db') →
        ∃ t2', db'.tables n2 = some t2' ∧
          t2'.rows.map (·.values) = t1.rows.map (·.values) := by
  intro h
  have hresult : (copiedNames "NULL").1 = .ok { message := "row inserted", rowCount := 1 } := by
    decide +kernel
  have hplaced : insertionsSince "copies" (namesDatabase "NULL") (copiedNames "NULL").2 =
      [(⟨0, 0⟩, [.null])] := by
    decide +kernel
  have hbytes : ("'NULL'".toList.all fun c => decide (c.toNat < 256)) = true := by decide
  have hstorable : ∀ row ∈ (namesTable "NULL").rows, (namesTable "NULL").Storable row.values := by
    intro row hrow
    rw [List.mem_singleton.mp hrow]
    exact ⟨Select.integerTexts.numbers, "'NULL'", 0, [.varstring (bytesOf "NULL".toList)],
      fun c hc => of_decide_eq_true (List.all_eq_true.mp hbytes c hc), rfl, rfl⟩
  have hpages := StoredTable.heldIn_empty copiesSchema
  obtain ⟨t, ht, hcopies⟩ := h Select.integerTexts.numbers copyNames "names" "copies"
    (namesTable "NULL") (.empty copiesSchema) (namesDatabase "NULL") _ [] (selectedNames "NULL") _ 1
    rfl rfl hstorable rfl rfl rfl rfl hpages rfl (Prod.ext hresult rfl)
    (hplaced ▸ ⟨_, rfl, rfl, trivial⟩)
  have hnull : ((copiedNames "NULL").2.tables "copies").map (fun t => t.rows.map (·.values)) =
      some [[.null]] := by
    decide +kernel
  have htable : (copiedNames "NULL").2.tables "copies" = some t := ht
  rw [htable, Option.map_some, hcopies, Option.some.injEq] at hnull
  exact absurd hnull (by decide)

end ScratchDb
